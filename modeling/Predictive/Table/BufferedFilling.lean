import Predictive.Discovery
import Predictive.Table.Buffered
import Predictive.Table.Filling

/-!
Contract: the cells of a buffered table filled one action after the other.

Owns: the buffers, put together without repetition, and the passes over the cells of a lookahead
table and over the short buffers.
Does not own: the table that runs read. There the actions of a cell are computed from those of the
lookahead table; the two ways agree.

The cells of the lookahead table come first, each under its padded column. A cell for which there
is no column, or no such buffer, is left out, and remembered.
-/

namespace Predictive

deriving instance Hashable for BufferedRow

/-- The short columns as they are, behind the empty buffer, then every column padded. -/
def LookaheadTable.buffers (table : LookaheadTable) : List (List BufferSymbol) :=
  let columns := table.axis.columns
  let short := columns.filter fun lookahead =>
    !lookahead.isEmpty && lookahead.length < table.length
  let opening := (short.map (·.map BufferSymbol.terminal)).foldl Discovery.insertNew [[]]
  (columns.map (pad table.length)).foldl Discovery.insertNew opening

namespace Filling

/-- The cells of a buffered table, and those of the lookahead table that are left out. -/
abbrev OfBuffered : Type := Filling BufferedRow BufferedAction Cell

/-- Carries a cell over, one action after the other. -/
def carryCell (table : LookaheadTable) (filling : OfBuffered) (cell : Cell) : OfBuffered :=
  match table.axis.column? cell.column with
  | none => filling.skip cell
  | some lookahead =>
      match table.buffers.idxOf? (pad table.length lookahead) with
      | none => filling.skip cell
      | some place =>
          cell.actions.foldl (fun filling action =>
            filling.push (.stack cell.row) place
              (BufferedTable.carry table.length lookahead action)) filling

/-- Lets every input row take its symbol into a short buffer, given with its place. -/
def takeIn (table : LookaheadTable) (filling : OfBuffered) (buffer : List BufferSymbol × Nat) :
    OfBuffered :=
  let taken := (List.range table.terminals).foldl (fun filling terminal =>
    filling.push (.input terminal) buffer.2 (.change (buffer.1 ++ [.terminal terminal]))) filling
  taken.push .inputEnd buffer.2 (.change (fill table.length buffer.1))

/-- The cells of a buffered table, first those carried over, then those of the input rows. -/
def ofLookahead (table : LookaheadTable) : OfBuffered :=
  let carried := table.cells.foldl (carryCell table) empty
  let short := table.buffers.zipIdx.filter fun buffer => buffer.1.length < table.length
  short.foldl (takeIn table) carried

end Filling

end Predictive
