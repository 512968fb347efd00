import Predictive.Table.Lookahead

/-!
Contract: the LL(k) table rearranged to read one input symbol at a time.

Owns: buffers, the rows and actions of the rearranged table, its columns and cells.
Does not own: the choice of actions, which is that of the lookahead table, and filling the cells
one by one.

A buffer shorter than the lookahead length is filled by the row of the next input
symbol; a full one selects what the lookahead table holds for the same lookahead. The
end mark fills a buffer when the input ends.
-/

namespace Predictive

inductive BufferSymbol where
  | terminal (number : Terminal)
  | endMark
deriving DecidableEq, Repr

inductive BufferedRow where
  | stack (symbol : StackSymbol)
  | input (terminal : Terminal)
  | inputEnd
deriving DecidableEq, Repr

inductive BufferedAction where
  | accept
  | pop (target : List BufferSymbol)
  | expand (rule : Nat) (replacement : List StackSymbol)
  | change (target : List BufferSymbol)
deriving DecidableEq, Repr

def BufferedRow.name (grammar : Grammar) : BufferedRow → String
  | .stack symbol => symbol.name grammar
  | .input terminal => s!"|{grammar.terminalName terminal}"
  | .inputEnd => "|$"

def BufferSymbol.name (grammar : Grammar) : BufferSymbol → String
  | .terminal number => grammar.terminalName number
  | .endMark => "$"

/-- A buffer in words, `ε` when it is empty. -/
def Grammar.bufferText (grammar : Grammar) (buffer : List BufferSymbol) : String :=
  if buffer.isEmpty then "ε" else " ".intercalate (buffer.map (BufferSymbol.name grammar))

/-- Fills a buffer with end marks up to a length. -/
def fill (length : Nat) (buffer : List BufferSymbol) : List BufferSymbol :=
  buffer ++ List.replicate (length - buffer.length) .endMark

/-- A lookahead as a full buffer. -/
def pad (length : Nat) (lookahead : List Terminal) : List BufferSymbol :=
  fill length (lookahead.map .terminal)

/-- The terminals of a buffer in which nothing but end marks follows an end mark. -/
def unpad? : List BufferSymbol → Option (List Terminal)
  | [] => some []
  | .terminal number :: rest => (unpad? rest).map (number :: ·)
  | .endMark :: rest => if rest.all (· == .endMark) then some [] else none

/-- A cell that holds at least one action. -/
structure BufferedCell where
  row : BufferedRow
  /-- Number of the column. -/
  column : Nat
  /-- The column itself. -/
  buffer : List BufferSymbol
  actions : List BufferedAction
deriving DecidableEq, Repr

structure BufferedTable where
  lookahead : LookaheadTable
deriving DecidableEq, Repr

namespace BufferedTable

def length (table : BufferedTable) : Nat := table.lookahead.length

def terminals (table : BufferedTable) : Nat := table.lookahead.terminals

def start (table : BufferedTable) : Nat := table.lookahead.start

/-- The rows of the input symbols and of the end of the input. -/
def inputRows (table : BufferedTable) : List BufferedRow :=
  (List.range table.terminals).map .input ++ [.inputEnd]

/-- States, terminals, bottom, then the input symbols and the end of the input. -/
def rows (table : BufferedTable) : List BufferedRow :=
  table.lookahead.rows.map .stack ++ table.inputRows

/-- The buffers that are not full: the empty one and the shorter columns of the lookahead
table. -/
def shortColumns (table : BufferedTable) : List (List BufferSymbol) :=
  [] :: (table.lookahead.axis.columns.filter fun lookahead =>
      !lookahead.isEmpty && lookahead.length < table.length).map (·.map .terminal)

/-- The buffers that are not full, then every column of the lookahead table padded. -/
def columns (table : BufferedTable) : List (List BufferSymbol) :=
  table.shortColumns ++ table.lookahead.axis.columns.map (pad table.length)

/-- Place of a buffer among the columns. -/
def index? (table : BufferedTable) (buffer : List BufferSymbol) : Option Nat :=
  match unpad? buffer with
  | none => none
  | some lookahead =>
      if buffer.length = table.length then
        (table.lookahead.axis.index? lookahead).map
          (1 + stringsUpTo table.terminals (table.length - 1) + ·)
      else if buffer.isEmpty then some 0
      else if lookahead.length = buffer.length then
        (table.lookahead.axis.index? lookahead).map (1 + ·)
      else none

def column? (table : BufferedTable) (index : Nat) : Option (List BufferSymbol) :=
  table.columns[index]?

/-- An action of the lookahead table with what it does to the buffer. -/
def carry (length : Nat) (lookahead : List Terminal) : Action → BufferedAction
  | .accept => .accept
  | .pop =>
      .pop ((pad length lookahead).tail
        ++ if lookahead.length < length then [.endMark] else [])
  | .expand rule replacement => .expand rule replacement

/-- The actions of a row under a buffer that is a column. -/
def actionsOn (table : BufferedTable) : BufferedRow → List BufferSymbol → List BufferedAction
  | .stack symbol, buffer =>
      if buffer.length = table.length then
        match unpad? buffer with
        | some lookahead =>
            (table.lookahead.actionsOn symbol lookahead).map (carry table.length lookahead)
        | none => []
      else []
  | .input terminal, buffer =>
      if buffer.length < table.length ∧ terminal < table.terminals then
        [.change (buffer ++ [.terminal terminal])]
      else []
  | .inputEnd, buffer =>
      if buffer.length < table.length then [.change (fill table.length buffer)] else []

/-- The actions of a row under any buffer; none unless it is a column. -/
def select (table : BufferedTable) (row : BufferedRow) (buffer : List BufferSymbol) :
    List BufferedAction :=
  if (table.index? buffer).isSome then table.actionsOn row buffer else []

/-- The actions of a row in a column given by number. -/
def actions (table : BufferedTable) (row : BufferedRow) (column : Nat) :
    List BufferedAction :=
  match table.column? column with
  | some buffer => table.actionsOn row buffer
  | none => []

/-- A cell of the lookahead table, its column padded and numbered behind the short
buffers. -/
def ofCell (table : BufferedTable) (short : Nat) (cell : Cell) : BufferedCell :=
  { row := .stack cell.row
    column := short + cell.column
    buffer := pad table.length cell.lookahead
    actions := cell.actions.map (carry table.length cell.lookahead) }

/-- The cells in which an input symbol is added to a buffer. -/
def changeCells (table : BufferedTable) : List BufferedCell :=
  let columns := table.shortColumns.zipIdx
  table.inputRows.flatMap fun row =>
    columns.filterMap fun (buffer, column) =>
      match table.actionsOn row buffer with
      | [] => none
      | action :: more => some ⟨row, column, buffer, action :: more⟩

/-- The cells that hold an action, by row, then by column: first those of the lookahead
table, whose buffers are full, then the changes of the short buffers. -/
def cells (table : BufferedTable) : List BufferedCell :=
  let short := table.shortColumns.length
  table.lookahead.cells.map (ofCell table short) ++ table.changeCells

/-- The cells that hold more than one action. -/
def conflicts (table : BufferedTable) : List BufferedCell :=
  table.cells.filter fun cell => 1 < cell.actions.length

def isDeterministic (table : BufferedTable) : Bool :=
  table.cells.all fun cell => cell.actions.length ≤ 1

end BufferedTable

/-- Both tables of a grammar that has no conflicts at a lookahead length. -/
def buildTables (grammar : Grammar) (length : Nat) :
    Except TableError (LookaheadTable × BufferedTable) := do
  let table ← LookaheadTable.build grammar length
  table.ensureDeterministic
  return (table, ⟨table⟩)

end Predictive
