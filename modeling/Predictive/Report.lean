import Predictive.Table.Buffered

/-!
Contract: the line-by-line listings of grammars, states and tables.

Owns: the shape of every line, and which listings a report of each detail has.
Does not own: the texts of single rules and lookaheads, which belong to the grammar.

Each line begins with the letters that name its kind, and fields are separated by
commas. A listing begins with a line that counts its entries.
-/

namespace Predictive

/-- Lines as text, each ended by a newline. -/
def textOfLines (lines : List String) : String :=
  String.join (lines.map (· ++ "\n"))

namespace Report

variable (grammar : Grammar)

/-- Lines `TS` and `T` for terminals, `NS` and `N` for nonterminals, `START`, `RS` and `R` for
rules. -/
def grammarLines : List String :=
  [s!"TS,{grammar.terminals.size}"]
    ++ grammar.terminals.entries.map (fun (number, name) => s!"T,{number},{name}")
    ++ [s!"NS,{grammar.nonterminals.size}"]
    ++ grammar.nonterminals.entries.map (fun (number, name) => s!"N,{number},{name}")
    ++ [s!"START,{grammar.nonterminalName grammar.start}", s!"RS,{grammar.rules.length}"]
    ++ grammar.rules.map (fun rule => s!"R,{grammar.ruleText rule}")

/-- A string of a set in words, `ε` when it is empty. -/
def stringText (string : BoundedString) : String :=
  if string.isEmpty then "ε" else grammar.lookaheadText string.terminals

def setText (set : LookaheadSet) : String :=
  "\x7b" ++ ", ".intercalate (set.strings.map (stringText grammar)) ++ "\x7d"

def contextText (context : Context) : String :=
  grammar.nonterminalName context.nonterminal ++ setText grammar context.follow

/-- Line `L` for the state's context, `U` for each lookahead with its rule and contexts. -/
def stateLines (number : Nat) (state : State) : List String :=
  (s!"L,T{number},{grammar.nonterminalName state.key.nonterminal},"
      ++ setText grammar state.key.follow)
    :: state.rows.map fun (lookahead, choice) =>
      s!"U,T{number},{stringText grammar lookahead},{choice.rule.number},["
        ++ " ".intercalate (choice.contexts.map (contextText grammar)) ++ "]"

/-- Line `LS`, then every state. -/
def statesLines (table : LookaheadTable) : List String :=
  s!"LS,{table.states.length}"
    :: table.states.zipIdx.flatMap fun (state, number) => stateLines grammar number state

def replacementText (replacement : List StackSymbol) : String :=
  if replacement.isEmpty then "ε"
  else " ".intercalate (replacement.map (StackSymbol.name grammar))

def expansionText (rule : Nat) (replacement : List StackSymbol) : String :=
  s!"expand({rule}: {replacementText grammar replacement})"

def actionText : Action → String
  | .accept => "accept"
  | .pop => "pop"
  | .expand rule replacement => expansionText grammar rule replacement

def bufferedActionText : BufferedAction → String
  | .accept => "accept"
  | .pop target => s!"pop({grammar.bufferText target})"
  | .expand rule replacement => expansionText grammar rule replacement
  | .change target => s!"change({grammar.bufferText target})"

/-- A cell's row, lookahead and actions. -/
def cellText (cell : Cell) : String :=
  s!"{cell.row.name grammar},{grammar.lookaheadText cell.lookahead},"
    ++ " | ".intercalate (cell.actions.map (actionText grammar))

def bufferedCellText (cell : BufferedCell) : String :=
  s!"{cell.row.name grammar},{grammar.bufferText cell.buffer},"
    ++ " | ".intercalate (cell.actions.map (bufferedActionText grammar))

/-- Line `PT` with the size, then `P` for each cell that holds an action. -/
def tableLines (table : LookaheadTable) : List String :=
  s!"PT,{table.length},{table.rows.length},{table.axis.count}"
    :: table.cells.map fun cell => "P," ++ cellText grammar cell

/-- Line `EPT` with the size, then `E` for each cell that holds an action. -/
def bufferedLines (table : BufferedTable) : List String :=
  s!"EPT,{table.length},{table.rows.length},{table.columns.length}"
    :: table.cells.map fun cell => "E," ++ bufferedCellText grammar cell

/-- Line `CONFLICTS` with their number, then `X` for each cell with several actions. -/
def conflictLines (table : LookaheadTable) : List String :=
  let conflicts := table.conflicts
  s!"CONFLICTS,{conflicts.length}"
    :: conflicts.map fun cell => "X," ++ cellText grammar cell

/-- Both tables; a full report has the grammar and the states before them. -/
def lines (table : LookaheadTable) (buffered : BufferedTable) : Detail → List String
  | .full =>
      grammarLines grammar ++ [""] ++ statesLines grammar table ++ [""]
        ++ tableLines grammar table ++ [""] ++ bufferedLines grammar buffered
  | .compact => tableLines grammar table ++ [""] ++ bufferedLines grammar buffered

end Report

end Predictive
