import Predictive.Generation
import Predictive.Run.Message

/-!
Contract: what each stage reports about its own progress.

Owns: the entries and their levels, as functions of what the stages produce.
Does not own: where entries go, and which of them are shown.

A stage that fails leaves the entries of the stages before it.
-/

namespace Predictive.Journal

inductive Level where
  | info
  | debug
  | trace
deriving DecidableEq, Repr

def Level.name : Level → String
  | .info => "INFO"
  | .debug => "DEBUG"
  | .trace => "TRACE"

structure Entry where
  level : Level
  text : String
deriving DecidableEq, Repr

def Entry.line (entry : Entry) : String := s!"{entry.level.name} {entry.text}"

def debug (text : String) : Entry := ⟨.debug, text⟩

def trace (text : String) : Entry := ⟨.trace, text⟩

/-- The entries without the most detailed ones. -/
def withoutTrace (entries : List Entry) : List Entry :=
  entries.filter fun entry => entry.level ≠ .trace

def tokenizing (text : String) : List Entry :=
  match GrammarText.tokenize text with
  | .error _ => []
  | .ok tokenized =>
      [debug s!"lexed {tokenized.tokens.length} tokens over {tokenized.lastLine} lines"]

def finishing (grammar : Grammar) : List Entry :=
  [debug (s!"grammar: {grammar.rules.length} rules, {grammar.terminals.size} terminals, "
    ++ s!"{grammar.nonterminals.size} nonterminals")]

/-- The entries of building a grammar from events. -/
def building (events : List Event) : List Entry :=
  match Grammar.ofEvents events with
  | .error _ => []
  | .ok grammar => finishing grammar

/-- The entries of reading a grammar from its text. -/
def reading (text : String) : List Entry :=
  tokenizing text ++
    match GrammarText.parse text with
    | .error _ => []
    | .ok written =>
        debug s!"notation: {written.rules.length} rules" :: building written.events

/-- One entry for each state found after the first, then the size of the table. -/
def tabulating (grammar : Grammar) (table : LookaheadTable) : List Entry :=
  (table.states.zipIdx.drop 1).map (fun (state, number) =>
      debug s!"state T{number} for `{grammar.nonterminalName state.key.nonterminal}`")
    ++ [debug (s!"LL({table.length}) table: {table.states.length} states, "
      ++ s!"{table.axis.count} columns, {table.conflicts.length} conflicting cells")]

/-- The entry of the check for conflicts, when there are some. -/
def checking (table : LookaheadTable) : List Entry :=
  match table.ensureDeterministic with
  | .ok () => []
  | .error _ =>
      [debug s!"LL({table.length}) table has {table.conflicts.length} conflicting cells"]

def buffering (table : BufferedTable) : List Entry :=
  [debug (s!"extended table: {table.rows.length} rows, {table.columns.length} columns, "
    ++ s!"{table.cells.length} non-empty cells")]

/-- The entries of building both tables of a grammar without conflicts. -/
def buildingTables (grammar : Grammar) (length : Nat) : List Entry :=
  match LookaheadTable.build grammar length with
  | .error _ => []
  | .ok table =>
      tabulating grammar table ++
        if table.isDeterministic then buffering ⟨table⟩ else checking table

def moveText (grammar : Grammar) : Move → String
  | .expand rule => s!"Expand {rule}"
  | .pop => "Pop"
  | .change buffer => s!"Change {grammar.bufferText buffer}"

/-- A configuration: the pushdown from the bottom up, and what is looked at. -/
def configurationText (grammar : Grammar) (stack : List StackSymbol) (lookahead : String) :
    String :=
  let names := " ".intercalate (stack.reverse.map (StackSymbol.name grammar))
  s!"stack [{names}] lookahead [{lookahead}]"

/-- Every configuration of a run with the move made there. -/
def running {Configuration Row Lookahead : Type} (grammar : Grammar)
    (describe : Configuration → String) (run : Run Configuration Row Lookahead) :
    List Entry :=
  (run.moves.flatMap fun (configuration, move) =>
      [trace (describe configuration), trace (moveText grammar move)])
    ++ trace (describe run.last)
      :: (if run.failure.isNone then [trace "Accept"] else [])

def windowRunning (grammar : Grammar) (table : LookaheadTable) (input : List Terminal) :
    List Entry :=
  running grammar
    (fun configuration => configurationText grammar configuration.stack
      (grammar.lookaheadText (table.window configuration)))
    (table.run grammar input)

def bufferedRunning (grammar : Grammar) (table : BufferedTable) (input : List Terminal) :
    List Entry :=
  running grammar
    (fun configuration => configurationText grammar configuration.stack
      (grammar.bufferText configuration.buffer))
    (table.run grammar input)

/-- The entries of making a report from a grammar's text. -/
def reporting (text : String) (settings : Settings) : List Entry :=
  reading text ++
    match Grammar.ofText text with
    | .error _ => []
    | .ok grammar => buildingTables grammar settings.lookahead

def written (path : String) : List Entry := [⟨.info, s!"report written to {path}"⟩]

/-- The entries of a generation from file to file. -/
def generating (directory : Directory) (input output : String) (settings : Settings) :
    List Entry :=
  (match directory.readText input with
    | .error _ => []
    | .ok text => reporting text settings)
  ++ match generate directory input output settings with
    | .error _ => []
    | .ok _ => written output

end Predictive.Journal
