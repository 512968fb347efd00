import Predictive.Proofs.Discovery
import Predictive.Proofs.Table.Buffered
import Predictive.Proofs.Table.Filling
import Predictive.Proofs.Table.Lookahead
import Predictive.Table.BufferedFilling

/-!
Contract: the passes over a lookahead table and the short buffers fill every cell of the buffered
table with what it holds there.

Owns: the listed cells of a lookahead table taken one by one, the buffers put together in two
passes, and what each pass adds.
Does not own: what the cells of the buffered table mean.

The rows are listed once and every column has one number, so a cell that is listed is met once in
the pass (`flatMap_cells`); and since the buffers have no repetition, the place at which a padded
column is found is the one behind the short buffers.
-/

namespace Predictive

/-- Of items without repetition one at most is a particular one. -/
theorem flatMap_of_nodup {Item Output : Type} [DecidableEq Item] (only : Item)
    (output : Item → List Output) {items : List Item} (nodup : items.Nodup) :
    (items.flatMap fun item => if only = item then output item else []) =
      if only ∈ items then output only else [] := by
  induction items with
  | nil => rfl
  | cons item items inductionHypothesis =>
      obtain ⟨new, rest⟩ := List.nodup_cons.mp nodup
      rw [List.flatMap_cons, inductionHypothesis rest]
      by_cases same : only = item
      · subst same
        simp [new]
      · simp [same]

namespace LookaheadTable

/-! ### Listed cells -/

theorem nodup_rows (table : LookaheadTable) : table.rows.Nodup := by
  have states : ((List.range table.states.length).map StackSymbol.state).Nodup :=
    List.nodup_range.map fun _ _ same => StackSymbol.state.inj same
  have terminals : ((List.range table.terminals).map StackSymbol.terminal).Nodup :=
    List.nodup_range.map fun _ _ same => StackSymbol.terminal.inj same
  unfold rows
  rw [List.nodup_append, List.nodup_append]
  refine ⟨⟨states, terminals, ?_⟩, List.nodup_singleton _, ?_⟩
  · rintro symbol first _ second rfl
    obtain ⟨number, _, rfl⟩ := List.mem_map.mp first
    simp at second
  · rintro symbol first _ second rfl
    rw [List.mem_singleton.mp second] at first
    simp at first

theorem cellsOf_cons (item : List Terminal × Nat) (columns : List (List Terminal × Nat))
    (row : StackSymbol) (actionsOn : List Terminal → List Action) :
    cellsOf (item :: columns) row actionsOn =
      (match actionsOn item.1 with
        | [] => []
        | action :: more => [⟨row, item.2, item.1, action :: more⟩]) ++
          cellsOf columns row actionsOn := by
  unfold cellsOf
  rw [List.filterMap_cons]
  dsimp only
  cases actionsOn item.1 <;> rfl

/-- Of the cells of a row those in a column are at most one. -/
theorem flatMap_cellsOf {Output : Type} (view : List Terminal → Action → Output)
    (row other : StackSymbol) (actionsOn : List Terminal → List Action) (column : Nat)
    (columns : List (List Terminal × Nat)) :
    ((cellsOf columns other actionsOn).flatMap fun cell =>
        if row = cell.row ∧ column = cell.column then cell.actions.map (view cell.lookahead)
        else []) =
      if row = other then
        columns.flatMap fun item =>
          if item.2 = column then (actionsOn item.1).map (view item.1) else []
      else [] := by
  induction columns with
  | nil => simp [cellsOf]
  | cons item columns inductionHypothesis =>
      rw [cellsOf_cons, List.flatMap_append, inductionHypothesis, List.flatMap_cons]
      by_cases same : row = other
      · cases acts : actionsOn item.1 <;> simp [same, eq_comm (a := column)]
      · cases acts : actionsOn item.1 <;> simp [same]

/-- What is seen of a row in a column among the listed cells is what it does there. -/
theorem flatMap_cells {Output : Type} (table : LookaheadTable)
    (view : List Terminal → Action → Output) (row : StackSymbol) (column : Nat) :
    (table.cells.flatMap fun cell =>
        if row = cell.row ∧ column = cell.column then cell.actions.map (view cell.lookahead)
        else []) =
      match table.axis.column? column with
      | some lookahead => (table.actionsOn row lookahead).map (view lookahead)
      | none => [] := by
  have single := flatMap_zipIdx_of_number (fun lookahead =>
    (table.actionsOn row lookahead).map (view lookahead)) table.axis.columns 0 column
  rw [Nat.zero_add] at single
  rw [cells_eq, List.flatMap_assoc]
  simp only [flatMap_cellsOf]
  rw [flatMap_of_nodup row _ table.nodup_rows, single]
  unfold Axis.column?
  cases atColumn : table.axis.columns[column]? with
  | none => simp
  | some lookahead =>
      have held := Axis.mem_columns.mp (List.mem_of_getElem? atColumn)
      by_cases listed : row ∈ table.rows
      · simp [listed]
      · have nothing : table.actionsOn row lookahead = [] := by
          by_contra acts
          exact listed (mem_rows_of_actionsOn held acts)
        simp [nothing]

end LookaheadTable

namespace BufferedTable

variable {table : BufferedTable}

/-! ### Buffers -/

theorem buffers_eq (positive : 0 < table.length) : table.lookahead.buffers = table.columns := by
  have nodup := nodup_columns positive
  have opening : ((table.lookahead.axis.columns.filter fun lookahead =>
      !lookahead.isEmpty && lookahead.length < table.length).map
        (·.map BufferSymbol.terminal)).foldl Discovery.insertNew [[]] = table.shortColumns :=
    Discovery.foldl_insertNew_of_nodup (List.nodup_append.mp nodup).1
  calc table.lookahead.buffers
      = (table.lookahead.axis.columns.map (pad table.length)).foldl Discovery.insertNew
          table.shortColumns := congrArg (List.foldl Discovery.insertNew · _) opening
    _ = table.columns := Discovery.foldl_insertNew_of_nodup nodup

theorem idxOf?_buffers (positive : 0 < table.length) {column : Nat} {lookahead : List Terminal}
    (atColumn : table.lookahead.axis.column? column = some lookahead) :
    table.lookahead.buffers.idxOf? (pad table.length lookahead) =
      some (table.shortColumns.length + column) := by
  have found : table.columns[table.shortColumns.length + column]? =
      some (pad table.length lookahead) :=
    (column?_add column).trans (congrArg (Option.map (pad table.length)) atColumn)
  obtain ⟨inside, same⟩ := List.getElem?_eq_some_iff.mp found
  rw [buffers_eq positive, List.idxOf?_eq_some_iff]
  refine ⟨inside, same, ?_⟩
  intro earlier before again
  have repeated := (List.Nodup.getElem_inj_iff (nodup_columns positive)).mp (again.trans same.symm)
  omega

/-- The buffers that are not full are those in front. -/
theorem filter_zipIdx_buffers (positive : 0 < table.length) :
    (table.lookahead.buffers.zipIdx.filter fun buffer => buffer.1.length < table.length) =
      table.shortColumns.zipIdx := by
  have short : ∀ buffer ∈ table.shortColumns.zipIdx,
      decide (buffer.1.length < table.length) = true := by
    intro buffer member
    exact decide_eq_true (length_of_mem_shortColumns positive (List.fst_mem_of_mem_zipIdx member))
  have full : ∀ buffer ∈ (table.lookahead.axis.columns.map (pad table.length)).zipIdx
      (0 + table.shortColumns.length), ¬decide (buffer.1.length < table.length) = true := by
    intro buffer member
    obtain ⟨lookahead, inColumns, padded⟩ :=
      List.mem_map.mp (List.fst_mem_of_mem_zipIdx member)
    have fits : lookahead.length ≤ table.length :=
      (Axis.contains_iff.mp (Axis.mem_columns.mp inColumns)).1
    rw [← padded, length_pad fits]
    simp
  rw [buffers_eq positive, columns, List.zipIdx_append, List.filter_append,
    List.filter_eq_self.mpr short, List.filter_eq_nil_iff.mpr full, List.append_nil]

/-! ### What the passes add -/

variable {filling : Filling.OfBuffered}

/-- What a cell of the lookahead table adds. -/
def addedByCell (table : BufferedTable) (cell : Cell) (row : BufferedRow) (place : Nat) :
    List BufferedAction :=
  if row = .stack cell.row ∧ place = table.shortColumns.length + cell.column then
    cell.actions.map (carry table.length cell.lookahead)
  else []

/-- What a short buffer, given with its place, adds. -/
def addedByBuffer (table : BufferedTable) (buffer : List BufferSymbol × Nat) (row : BufferedRow)
    (place : Nat) : List BufferedAction :=
  if buffer.2 = place then table.actionsOn row buffer.1 else []

theorem adds_carryCell (positive : 0 < table.length) {cell : Cell}
    (listed : cell ∈ table.lookahead.cells) :
    filling.Adds (Filling.carryCell table.lookahead filling cell) (table.addedByCell cell) := by
  obtain ⟨atColumn, _, _⟩ := LookaheadTable.mem_cells_iff_actions.mp listed
  have carried : Filling.carryCell table.lookahead filling cell =
      cell.actions.foldl (fun filling action =>
        filling.push (.stack cell.row) (table.shortColumns.length + cell.column)
          (carry table.length cell.lookahead action)) filling := by
    simp only [Filling.carryCell, atColumn]
    rw [show table.lookahead.length = table.length from rfl, idxOf?_buffers positive atColumn]
  rw [carried]
  exact Filling.adds_pushes _ _ _ _

/-- What a terminal adds that is taken into a short buffer. -/
def addedByTerminal (buffer : List BufferSymbol × Nat) (terminal : Terminal) (row : BufferedRow)
    (place : Nat) : List BufferedAction :=
  if row = .input terminal ∧ place = buffer.2 then [.change (buffer.1 ++ [.terminal terminal])]
  else []

theorem flatMap_addedByTerminal (known : Nat) (buffer : List BufferSymbol × Nat)
    (terminal : Terminal) (place : Nat) :
    ((List.range known).flatMap fun other =>
        addedByTerminal buffer other (.input terminal) place) =
      if place = buffer.2 ∧ terminal < known then
        [.change (buffer.1 ++ [.terminal terminal])]
      else [] := by
  have single := flatMap_of_nodup terminal (fun other =>
    if place = buffer.2 then [BufferedAction.change (buffer.1 ++ [.terminal other])] else [])
    (List.nodup_range : (List.range known).Nodup)
  simp only [addedByTerminal, BufferedRow.input.injEq, ite_and]
  refine single.trans ?_
  by_cases here : place = buffer.2 <;> simp [here]

theorem adds_takeIn {buffer : List BufferSymbol × Nat}
    (short : buffer.1.length < table.length) :
    filling.Adds (Filling.takeIn table.lookahead filling buffer) (table.addedByBuffer buffer) := by
  have each : ∀ before : Filling.OfBuffered, ∀ terminal ∈ List.range table.terminals,
      before.Adds (before.push (.input terminal) buffer.2
        (.change (buffer.1 ++ [.terminal terminal]))) (addedByTerminal buffer terminal) :=
    fun before terminal _ => Filling.adds_push _ _ _
  refine ((Filling.adds_foldl each filling).trans (Filling.adds_push _ _ _)).congr ?_
  intro row place
  unfold addedByBuffer
  have noTerminal (other : ∀ terminal, row ≠ .input terminal) :
      ((List.range table.terminals).flatMap fun terminal =>
        addedByTerminal buffer terminal row place) = [] :=
    List.flatMap_eq_nil_iff.mpr fun terminal _ => if_neg fun same => other terminal same.1
  cases row with
  | stack symbol =>
      rw [noTerminal (by simp), actionsOn_stack_short short]
      simp
  | input terminal =>
      rw [flatMap_addedByTerminal]
      by_cases here : buffer.2 = place <;>
        simp [here, actionsOn, short, terminals, eq_comm (a := place)]
  | inputEnd =>
      rw [noTerminal (by simp), List.nil_append]
      by_cases here : buffer.2 = place
      · simp only [here, and_self, if_true, actionsOn, if_pos short]
        rfl
      · simp [here, eq_comm (a := place)]

/-- Whatever row is one of the input takes nothing into a full buffer. -/
theorem actionsOn_input_full {row : BufferedRow} (input : ∀ symbol, row ≠ .stack symbol)
    {buffer : List BufferSymbol} (full : ¬buffer.length < table.length) :
    table.actionsOn row buffer = [] := by
  cases row with
  | stack symbol => exact absurd rfl (input symbol)
  | input terminal => rw [actionsOn, if_neg fun room => full room.1]
  | inputEnd => rw [actionsOn, if_neg full]

theorem actions_input_behind {row : BufferedRow} (input : ∀ symbol, row ≠ .stack symbol)
    (column : Nat) : table.actions row (table.shortColumns.length + column) = [] := by
  rw [actions, column?_add]
  cases atColumn : table.lookahead.axis.column? column with
  | none => rfl
  | some lookahead =>
      refine actionsOn_input_full input (Nat.not_lt_of_ge ?_)
      rw [length_pad (fits_of_column? atColumn).2]

/-- The short buffers add what the input rows do. -/
theorem flatMap_addedByBuffer (row : BufferedRow) (place : Nat) :
    (table.shortColumns.zipIdx.flatMap fun buffer => table.addedByBuffer buffer row place) =
      (table.shortColumns[place]?.map (table.actionsOn row)).getD [] := by
  have single := flatMap_zipIdx_of_number (table.actionsOn row) table.shortColumns 0 place
  rwa [Nat.zero_add] at single

/-- The cells of the lookahead table add what the pushdown rows do behind the short buffers. -/
theorem flatMap_addedByCell (symbol : StackSymbol) (column : Nat) :
    (table.lookahead.cells.flatMap fun cell =>
        table.addedByCell cell (.stack symbol) (table.shortColumns.length + column)) =
      table.actions (.stack symbol) (table.shortColumns.length + column) := by
  have cells := table.lookahead.flatMap_cells (carry table.length) symbol column
  simp only [addedByCell, BufferedRow.stack.injEq, Nat.add_left_cancel_iff]
  refine cells.trans ?_
  rw [actions, column?_add]
  cases atColumn : table.lookahead.axis.column? column with
  | none => rfl
  | some lookahead => exact (actionsOn_stack_full (fits_of_column? atColumn).2 symbol).symm

/-- Either the cells or the short buffers add what a row does at a place. -/
theorem added_eq_actions (row : BufferedRow) (place : Nat) :
    (table.lookahead.cells.flatMap fun cell => table.addedByCell cell row place) ++
        (table.shortColumns.zipIdx.flatMap fun buffer => table.addedByBuffer buffer row place) =
      table.actions row place := by
  rw [flatMap_addedByBuffer]
  by_cases inShort : place < table.shortColumns.length
  · have noCell : (table.lookahead.cells.flatMap fun cell => table.addedByCell cell row place) =
        [] :=
      List.flatMap_eq_nil_iff.mpr fun cell _ => if_neg fun same => by omega
    have found := List.getElem?_eq_getElem inShort
    rw [noCell, found, actions_of_column? (column?_of_shortColumns found)]
    rfl
  · obtain ⟨column, rfl⟩ := Nat.exists_eq_add_of_le (Nat.le_of_not_lt inShort)
    rw [List.getElem?_eq_none (Nat.le_add_right _ _), Option.map_none, Option.getD_none,
      List.append_nil]
    by_cases ofStack : ∃ symbol, row = .stack symbol
    · obtain ⟨symbol, rfl⟩ := ofStack
      exact flatMap_addedByCell symbol column
    · have input (symbol : StackSymbol) : row ≠ .stack symbol := fun same => ofStack ⟨symbol, same⟩
      rw [actions_input_behind input]
      exact List.flatMap_eq_nil_iff.mpr fun cell _ => if_neg fun same => input cell.row same.1

/-- The passes leave no cell out and fill every cell with its actions. -/
theorem adds_ofLookahead (positive : 0 < table.length) :
    Filling.empty.Adds (Filling.ofLookahead table.lookahead) table.actions := by
  have eachCell : ∀ before, ∀ cell ∈ table.lookahead.cells,
      Filling.Adds before (Filling.carryCell table.lookahead before cell)
        (table.addedByCell cell) :=
    fun _ _ listed => adds_carryCell positive listed
  have eachBuffer : ∀ before, ∀ buffer ∈ table.shortColumns.zipIdx,
      Filling.Adds before (Filling.takeIn table.lookahead before buffer)
        (table.addedByBuffer buffer) :=
    fun _ buffer member =>
      adds_takeIn (length_of_mem_shortColumns positive (List.fst_mem_of_mem_zipIdx member))
  have all := ((Filling.adds_foldl eachCell Filling.empty).trans
    (Filling.adds_foldl eachBuffer _)).congr added_eq_actions
  rwa [← filter_zipIdx_buffers positive] at all

end BufferedTable

end Predictive
