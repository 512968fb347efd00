import Std.Data.HashMap
import Predictive.Settings
import Predictive.Table.State

/-!
Contract: the LL(k) table, which chooses an action by pushdown top and lookahead.

Owns: actions, the table over the canonical states, its cells, and its conflicts.
Does not own: runs of the table.

`actionsOn` states what a cell holds: an expansion for each choice that admits the
lookahead, a pop where the lookahead begins with the row's terminal, an acceptance at
the bottom when nothing is left. All other views are read off it. A listing of the cells
looks up the actions of a state in an index, which holds the same (`getD_actionIndex`,
`cells_eq`).
-/

namespace Predictive

inductive Action where
  | accept
  | pop
  | expand (rule : Nat) (replacement : List StackSymbol)
deriving DecidableEq, Repr

inductive TableError where
  | lookahead (length : Nat)
  | leftRecursive (name : String)
  | conflict (length : Nat) (cells : Nat)
deriving DecidableEq, Repr

def TableError.message : TableError → String
  | .lookahead length => lookaheadMessage length
  | .leftRecursive name => s!"left recursion through `{name}`"
  | .conflict length cells => s!"grammar is not LL({length}): {cells} conflicting table cell(s)"

/-- A cell that holds at least one action. -/
structure Cell where
  row : StackSymbol
  /-- Number of the column. -/
  column : Nat
  /-- The column itself. -/
  lookahead : List Terminal
  actions : List Action
deriving DecidableEq, Repr

structure LookaheadTable where
  axis : Axis
  states : List State
deriving DecidableEq, Repr

/-- Whether a string of the set has these terminals. -/
def LookaheadSet.hasWord (set : LookaheadSet) (word : List Terminal) : Bool :=
  set.strings.any fun string => string.terminals == word

/-- What a choice does. -/
def Choice.action (choice : Choice) : Action :=
  .expand choice.rule.number choice.replacement

/-- One expansion for each choice that admits the lookahead, in rule order. -/
def State.actionsOn (state : State) (lookahead : List Terminal) : List Action :=
  (state.choices.filter fun choice => choice.lookaheads.hasWord lookahead).map Choice.action

/-- The actions of a state by lookahead. -/
abbrev ActionIndex := Std.HashMap (List Terminal) (List Action)

namespace ActionIndex

/-- Adds an action at the end of what is held under each of the words. -/
def addAction (index : ActionIndex) (action : Action) (words : List (List Terminal)) :
    ActionIndex :=
  words.foldl (fun next word => next.insert word (index.getD word [] ++ [action])) index

theorem getD_foldl_insert (index next : ActionIndex) (action : Action)
    (words : List (List Terminal)) (word : List Terminal) :
    (words.foldl (fun next word => next.insert word (index.getD word [] ++ [action]))
        next).getD word [] =
      if word ∈ words then index.getD word [] ++ [action] else next.getD word [] := by
  induction words generalizing next with
  | nil => simp
  | cons head rest inductionHypothesis =>
      rw [List.foldl_cons, inductionHypothesis, Std.HashMap.getD_insert]
      by_cases inRest : word ∈ rest
      · rw [if_pos inRest, if_pos (List.mem_cons_of_mem head inRest)]
      · rw [if_neg inRest]
        by_cases same : head = word
        · subst same
          simp
        · have absent : word ∉ head :: rest := by
            intro member
            rcases List.mem_cons.mp member with equal | later
            · exact same equal.symm
            · exact inRest later
          rw [if_neg absent, if_neg (by simpa using same)]

theorem getD_addAction (index : ActionIndex) (action : Action) (words : List (List Terminal))
    (word : List Terminal) :
    (index.addAction action words).getD word [] =
      index.getD word [] ++ if word ∈ words then [action] else [] := by
  rw [addAction, getD_foldl_insert]
  split <;> simp

end ActionIndex

/-- The actions of a state on every lookahead that has some. -/
def State.actionIndex (state : State) : ActionIndex :=
  state.choices.foldl (fun index choice => index.addAction choice.action choice.lookaheads.words)
    ∅

theorem LookaheadSet.hasWord_eq (set : LookaheadSet) (word : List Terminal) :
    set.hasWord word = decide (word ∈ set.words) := by
  unfold hasWord words
  rw [Bool.eq_iff_iff]
  simp

private theorem getD_foldl_addAction (index : ActionIndex) (choices : List Choice)
    (word : List Terminal) :
    (choices.foldl (fun index choice => index.addAction choice.action choice.lookaheads.words)
        index).getD word [] =
      index.getD word []
        ++ (choices.filter fun choice => choice.lookaheads.hasWord word).map Choice.action := by
  induction choices generalizing index with
  | nil => simp
  | cons choice rest inductionHypothesis =>
      rw [List.foldl_cons, inductionHypothesis, ActionIndex.getD_addAction, List.filter_cons,
        LookaheadSet.hasWord_eq]
      by_cases member : word ∈ choice.lookaheads.words <;> simp [member]

/-- The index holds what the state does on a lookahead. -/
theorem State.getD_actionIndex (state : State) (word : List Terminal) :
    state.actionIndex.getD word [] = state.actionsOn word := by
  rw [actionIndex, getD_foldl_addAction]
  simp [actionsOn]

namespace LookaheadTable

/-- The table of a grammar, with or without conflicts. -/
def build (grammar : Grammar) (length : Nat) : Except TableError LookaheadTable :=
  if ValidLookahead length then
    match grammar.states length with
    | .ok states => .ok ⟨grammar.axis length, states⟩
    | .error nonterminal => .error (.leftRecursive (grammar.nonterminalName nonterminal))
  else .error (.lookahead length)

/-- The lookahead length. -/
def length (table : LookaheadTable) : Nat := table.axis.length

def terminals (table : LookaheadTable) : Nat := table.axis.terminals

/-- Number of the state for the start symbol before the end of the input. -/
def start (_table : LookaheadTable) : Nat := 0

def state? (table : LookaheadTable) (number : Nat) : Option State := table.states[number]?

/-- The actions of a row under a lookahead that is a column. -/
def actionsOn (table : LookaheadTable) : StackSymbol → List Terminal → List Action
  | .state number, lookahead =>
      match table.state? number with
      | some state => state.actionsOn lookahead
      | none => []
  | .terminal number, lookahead => if lookahead.head? = some number then [.pop] else []
  | .bottom, lookahead => if lookahead.isEmpty then [.accept] else []

/-- The actions of a row under any lookahead; none unless it is a column. -/
def select (table : LookaheadTable) (row : StackSymbol) (lookahead : List Terminal) :
    List Action :=
  if table.axis.contains lookahead then table.actionsOn row lookahead else []

/-- The actions of a row in a column given by number. -/
def actions (table : LookaheadTable) (row : StackSymbol) (column : Nat) : List Action :=
  match table.axis.column? column with
  | some lookahead => table.actionsOn row lookahead
  | none => []

/-- States, terminals, bottom. -/
def rows (table : LookaheadTable) : List StackSymbol :=
  (List.range table.states.length).map .state
    ++ (List.range table.terminals).map .terminal ++ [.bottom]

/-- The cells of a row that hold an action, given its actions and the columns. -/
def cellsOf (columns : List (List Terminal × Nat)) (row : StackSymbol)
    (actionsOn : List Terminal → List Action) : List Cell :=
  columns.filterMap fun (lookahead, column) =>
    match actionsOn lookahead with
    | [] => none
    | action :: more => some ⟨row, column, lookahead, action :: more⟩

/-- The cells of a row that hold an action, given the columns. -/
def rowCells (table : LookaheadTable) (columns : List (List Terminal × Nat)) :
    StackSymbol → List Cell
  | .state number =>
      match table.state? number with
      | some state =>
          let index := state.actionIndex
          cellsOf columns (.state number) (index.getD · [])
      | none => []
  | row => cellsOf columns row (table.actionsOn row)

theorem rowCells_eq (table : LookaheadTable) (columns : List (List Terminal × Nat))
    (row : StackSymbol) :
    table.rowCells columns row = cellsOf columns row (table.actionsOn row) := by
  cases row with
  | state number =>
      unfold rowCells
      cases found : table.state? number with
      | none => simp [cellsOf, actionsOn, found]
      | some state => simp [cellsOf, actionsOn, found, State.getD_actionIndex]
  | terminal number => rfl
  | bottom => rfl

/-- The cells that hold an action, by row, then by column. -/
def cells (table : LookaheadTable) : List Cell :=
  let columns := table.axis.columns.zipIdx
  table.rows.flatMap (table.rowCells columns)

theorem cells_eq (table : LookaheadTable) :
    table.cells = table.rows.flatMap fun row =>
      cellsOf table.axis.columns.zipIdx row (table.actionsOn row) :=
  congrArg (table.rows.flatMap ·) (funext (table.rowCells_eq table.axis.columns.zipIdx))

/-- The cells that hold more than one action. -/
def conflicts (table : LookaheadTable) : List Cell :=
  table.cells.filter fun cell => 1 < cell.actions.length

def isDeterministic (table : LookaheadTable) : Bool :=
  table.cells.all fun cell => cell.actions.length ≤ 1

/-- Refuses a table with conflicts. -/
def ensureDeterministic (table : LookaheadTable) : Except TableError Unit :=
  let count := table.conflicts.length
  if 0 < count then .error (.conflict table.length count) else .ok ()

end LookaheadTable

/-- A lookahead in words, `$` when nothing is left. -/
def Grammar.lookaheadText (grammar : Grammar) (lookahead : List Terminal) : String :=
  if lookahead.isEmpty then "$" else " ".intercalate (lookahead.map grammar.terminalName)

end Predictive
