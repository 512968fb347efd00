import Std.Data.HashMap
import Predictive.Table.Lookahead

/-!
Contract: the cells of a table filled one action after the other.

Owns: the cells as far as they are filled, whatever their rows and actions are, the place of a
state's row, and the pass over all states and columns of a lookahead table.
Does not own: the table that runs read. There the actions of a cell are looked up among the
choices of its state; the two ways agree.

The row of a state is placed under its rule and in the column of its lookahead. A row for which
there is no such rule or no such column is left out, and remembered.
-/

namespace Predictive

deriving instance Hashable for StackSymbol

/-- The cells as far as a pass has filled them, by row and number of the column. -/
structure Filling (Row Entry Skipped : Type) [DecidableEq Row] [Hashable Row] where
  cells : Std.HashMap (Row × Nat) (List Entry)
  /-- What has been left out. -/
  skipped : List Skipped

namespace Filling

section Cells

variable {Row Entry Skipped : Type} [DecidableEq Row] [Hashable Row]

def empty : Filling Row Entry Skipped := ⟨∅, []⟩

/-- What a cell holds so far. -/
def actions (filling : Filling Row Entry Skipped) (row : Row) (column : Nat) : List Entry :=
  filling.cells.getD (row, column) []

/-- Adds an action at the end of a cell. -/
def push (filling : Filling Row Entry Skipped) (row : Row) (column : Nat) (action : Entry) :
    Filling Row Entry Skipped :=
  { filling with
    cells := filling.cells.insert (row, column) (filling.actions row column ++ [action]) }

/-- Leaves something out. -/
def skip (filling : Filling Row Entry Skipped) (item : Skipped) : Filling Row Entry Skipped :=
  { filling with skipped := filling.skipped ++ [item] }

end Cells

/-- The cells of a lookahead table; a row that is left out has the number of its state. -/
abbrev OfLookahead : Type := Filling StackSymbol Action (Nat × BoundedString × Choice)

/-- Places a row of a state. -/
def placeRow (grammar : Grammar) (axis : Axis) (number : Nat) (filling : OfLookahead)
    (row : BoundedString × Choice) : OfLookahead :=
  match grammar.rule? row.2.rule.number, axis.index? row.1.terminals with
  | some rule, some column =>
      filling.push (.state number) column
        (.expand row.2.rule.number (stackSymbols rule.right row.2.targets))
  | _, _ => filling.skip (number, row)

/-- Places the rows of a state, given with its number. -/
def placeState (grammar : Grammar) (axis : Axis) (filling : OfLookahead) (state : State × Nat) :
    OfLookahead :=
  state.1.rows.foldl (placeRow grammar axis state.2) filling

/-- Places a pop in a column, given with its number, for the terminal that it starts with. -/
def placePop (filling : OfLookahead) (column : List Terminal × Nat) : OfLookahead :=
  match column.1.head? with
  | some terminal => filling.push (.terminal terminal) column.2 .pop
  | none => filling

/-- The cells of a table, first those of the states, then those of the terminals, then the
acceptance. -/
def ofTable (grammar : Grammar) (table : LookaheadTable) : OfLookahead :=
  let expansions := table.states.zipIdx.foldl (placeState grammar table.axis) empty
  let pops := table.axis.columns.zipIdx.foldl placePop expansions
  pops.push .bottom table.axis.endColumn .accept

end Filling

end Predictive
