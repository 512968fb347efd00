import Predictive.Proofs.Table.Lookahead
import Predictive.Table.Filling

/-!
Contract: a pass over rows and columns fills every cell with what the table holds there.

Owns: the cells of any table by column number, the rows of a state under a lookahead, and what
each step of the pass adds.
Does not own: which grammars have tables whose rows all find their place.

What a step adds to a cell depends on the step and the cell only (`Filling.Adds`), so what a
loop adds is what its steps add, in their order (`adds_foldl`).
-/

namespace Predictive

namespace LookaheadSet

theorem limit_of_mem_concat {limit : Nat} {left right : LookaheadSet} {string : BoundedString}
    (member : string ∈ concat limit left right) : string.limit = limit := by
  obtain ⟨_, _, _, _, same⟩ := (mem_concat limit left right string).mp member
  rw [same]
  rfl

/-- Where all strings have one limit, no two of them have the same terminals. -/
theorem map_filter_terminals {Item : Type} {set : LookaheadSet} {limit : Nat}
    (limited : ∀ string ∈ set, string.limit = limit) (word : List Terminal) (item : Item) :
    ((set.strings.filter fun string => string.terminals == word).map fun _ => item) =
      if set.hasWord word then [item] else [] := by
  have increasing := set.increasing.filter fun string => string.terminals == word
  have alike : ∀ string ∈ set.strings.filter fun string => string.terminals == word,
      string.limit = limit ∧ string.terminals = word := by
    intro string member
    obtain ⟨inSet, spelled⟩ := List.mem_filter.mp member
    exact ⟨limited string inSet, beq_iff_eq.mp spelled⟩
  have found : set.hasWord word = true ↔
      (set.strings.filter fun string => string.terminals == word) ≠ [] := by
    rw [hasWord, List.any_eq_true, Ne, List.filter_eq_nil_iff]
    simp
  simp only [found]
  generalize (set.strings.filter fun string => string.terminals == word) = strings
    at increasing alike
  cases strings with
  | nil => rfl
  | cons first others =>
      cases others with
      | nil => rfl
      | cons second others =>
          have firstAlike := alike first (by simp)
          have secondAlike := alike second (by simp)
          have same : first = second :=
            BoundedString.ext (firstAlike.2.trans secondAlike.2.symm)
              (firstAlike.1.trans secondAlike.1.symm)
          have before := List.rel_of_pairwise_cons increasing List.mem_cons_self
          rw [same] at before
          exact absurd before (BoundedString.not_before_self second)

end LookaheadSet

/-- The rows of a state that have a lookahead are its actions on the lookahead. -/
theorem State.map_filter_rows {state : State} {limit : Nat}
    (limited : ∀ choice ∈ state.choices, ∀ string ∈ choice.lookaheads, string.limit = limit)
    (lookahead : List Terminal) :
    ((state.rows.filter fun row => row.1.terminals == lookahead).map fun row => row.2.action) =
      state.actionsOn lookahead := by
  unfold rows actionsOn
  generalize state.choices = choices at limited
  induction choices with
  | nil => rfl
  | cons choice choices inductionHypothesis =>
      have head := LookaheadSet.map_filter_terminals (limited choice List.mem_cons_self) lookahead
        choice.action
      have tail := inductionHypothesis fun other member =>
        limited other (List.mem_cons_of_mem choice member)
      rw [List.flatMap_cons, List.filter_append, List.map_append, tail, List.filter_map,
        List.map_map, List.filter_cons]
      refine (congrArg (· ++ _) head).trans ?_
      split <;> rfl

namespace LookaheadTable

variable {table : LookaheadTable}

/-! ### Cells by column number -/

theorem actions_eq_actionsOn {row : StackSymbol} {column : Nat} {lookahead : List Terminal}
    (atColumn : table.axis.column? column = some lookahead) :
    table.actions row column = table.actionsOn row lookahead := by
  unfold actions
  rw [atColumn]

theorem actions_of_no_column {row : StackSymbol} {column : Nat}
    (noColumn : table.axis.column? column = none) : table.actions row column = [] := by
  unfold actions
  rw [noColumn]

theorem column?_endColumn : table.axis.column? table.axis.endColumn = some [] :=
  Axis.index?_eq_some_iff.mp rfl

theorem actions_terminal {terminal : Terminal} {column : Nat} {lookahead : List Terminal}
    (atColumn : table.axis.column? column = some lookahead) :
    table.actions (.terminal terminal) column =
      if lookahead.head? = some terminal then [.pop] else [] :=
  actions_eq_actionsOn atColumn

/-- The bottom accepts where nothing is left, which is in one column only. -/
theorem actions_bottom (column : Nat) :
    table.actions .bottom column = if column = table.axis.endColumn then [.accept] else [] := by
  cases atColumn : table.axis.column? column with
  | none =>
      rw [actions_of_no_column atColumn, if_neg]
      rintro rfl
      rw [column?_endColumn] at atColumn
      exact absurd atColumn (by simp)
  | some lookahead =>
      rw [actions_eq_actionsOn atColumn]
      show (if lookahead.isEmpty then [Action.accept] else []) = _
      congr 1
      rw [List.isEmpty_iff, eq_iff_iff]
      have placed := Axis.index?_eq_some_iff.mpr atColumn
      constructor
      · rintro rfl
        exact (Option.some.inj placed).symm
      · rintro rfl
        exact Option.some.inj (atColumn.symm.trans column?_endColumn)

/-- The actions of a state in a column are those of its rows whose lookahead is the column. -/
theorem actions_state {number limit : Nat} {state : State}
    (found : table.state? number = some state)
    (limited : ∀ choice ∈ state.choices, ∀ string ∈ choice.lookaheads, string.limit = limit)
    (column : Nat) :
    table.actions (.state number) column =
      (state.rows.filter fun row => table.axis.index? row.1.terminals = some column).map
        fun row => row.2.action := by
  cases atColumn : table.axis.column? column with
  | none =>
      rw [actions_of_no_column atColumn, List.filter_eq_nil_iff.mpr, List.map_nil]
      intro row _ placed
      rw [decide_eq_true_iff, Axis.index?_eq_some_iff, atColumn] at placed
      exact absurd placed (by simp)
  | some lookahead =>
      have placed (row : BoundedString × Choice) :
          decide (table.axis.index? row.1.terminals = some column) =
            (row.1.terminals == lookahead) := by
        rw [Bool.eq_iff_iff, decide_eq_true_iff, beq_iff_eq, Axis.index?_eq_some_iff, atColumn,
          Option.some.injEq]
        exact eq_comm
      have ofState : table.actionsOn (.state number) lookahead = state.actionsOn lookahead := by
        simp only [actionsOn, found]
      rw [actions_eq_actionsOn atColumn, ofState]
      simp only [placed]
      exact (State.map_filter_rows limited lookahead).symm

/-- Only listed rows hold actions, and only in columns. -/
theorem listed_of_actions {row : StackSymbol} {column : Nat}
    (acts : table.actions row column ≠ []) :
    row ∈ table.rows ∧ column < table.axis.columns.length := by
  cases atColumn : table.axis.column? column with
  | none => exact absurd (actions_of_no_column atColumn) acts
  | some lookahead =>
      rw [actions_eq_actionsOn atColumn] at acts
      have held := Axis.mem_columns.mp (List.mem_of_getElem? atColumn)
      exact ⟨mem_rows_of_actionsOn held acts, (List.getElem?_eq_some_iff.mp atColumn).1⟩

theorem mem_cells_iff_actions {cell : Cell} : cell ∈ table.cells ↔
    table.axis.column? cell.column = some cell.lookahead ∧
      cell.actions = table.actions cell.row cell.column ∧ cell.actions ≠ [] := by
  rw [mem_cells]
  constructor
  · rintro ⟨row, _, lookahead, column, inColumns, acts, rfl⟩
    have atColumn : table.axis.column? column = some lookahead :=
      List.mem_zipIdx_iff_getElem?.mp inColumns
    exact ⟨atColumn, (actions_eq_actionsOn atColumn).symm, acts⟩
  · rintro ⟨atColumn, same, acts⟩
    rw [same] at acts
    have listed := (listed_of_actions acts).1
    rw [actions_eq_actionsOn atColumn] at same acts
    refine ⟨cell.row, listed, cell.lookahead, cell.column,
      List.mem_zipIdx_iff_getElem?.mpr atColumn, acts, ?_⟩
    rw [← same]

/-- Whether every row has its rule and a column. -/
def RowsLand (table : LookaheadTable) (grammar : Grammar) : Prop :=
  ∀ state ∈ table.states, ∀ row ∈ state.rows,
    grammar.rule? row.2.rule.number = some row.2.rule ∧
      ∃ column, table.axis.index? row.1.terminals = some column

end LookaheadTable

/-! ### The pass -/

theorem flatMap_ite {Item Output : Type} (test : Item → Prop) [DecidablePred test]
    (output : Item → Output) (items : List Item) :
    (items.flatMap fun item => if test item then [output item] else []) =
      (items.filter fun item => test item).map output := by
  induction items with
  | nil => rfl
  | cons item items inductionHypothesis =>
      rw [List.flatMap_cons, inductionHypothesis, List.filter_cons]
      by_cases passes : test item <;> simp [passes]

/-- Of numbered items one at most has a number. -/
theorem flatMap_zipIdx_of_number {Item Output : Type} (output : Item → List Output)
    (items : List Item) (start place : Nat) :
    ((items.zipIdx start).flatMap fun item =>
        if item.2 = start + place then output item.1 else []) =
      (items[place]?.map output).getD [] := by
  induction items generalizing start place with
  | nil => rfl
  | cons item items inductionHypothesis =>
      rw [List.zipIdx_cons, List.flatMap_cons]
      cases place with
      | zero =>
          have others : ((items.zipIdx (start + 1)).flatMap fun item =>
              if item.2 = start + 0 then output item.1 else []) = [] := by
            apply List.flatMap_eq_nil_iff.mpr
            intro later member
            have behind := List.le_snd_of_mem_zipIdx member
            exact if_neg (by omega)
          rw [others, List.append_nil]
          exact if_pos rfl
      | succ place =>
          have rest := inductionHypothesis (start + 1) place
          rw [if_neg (by dsimp only; omega), List.nil_append, List.getElem?_cons_succ, ← rest]
          simp only [Nat.add_assoc, Nat.add_comm 1]

namespace Filling

section Cells

variable {Row Entry Skipped : Type} [DecidableEq Row] [Hashable Row]
  {filling : Filling Row Entry Skipped}

/-- What is added from one filling to another, in each cell behind what it holds, with nothing
left out. -/
structure Adds (before after : Filling Row Entry Skipped) (added : Row → Nat → List Entry) :
    Prop where
  actions_eq : ∀ row column, after.actions row column = before.actions row column ++ added row column
  skipped_eq : after.skipped = before.skipped

theorem actions_empty (row : Row) (column : Nat) :
    (empty : Filling Row Entry Skipped).actions row column = [] :=
  Std.HashMap.getD_empty

theorem Adds.congr {before after : Filling Row Entry Skipped}
    {added other : Row → Nat → List Entry} (adds : Adds before after added)
    (same : ∀ row column, added row column = other row column) : Adds before after other :=
  ⟨fun row column => by rw [adds.actions_eq, same], adds.skipped_eq⟩

theorem adds_push (row : Row) (column : Nat) (action : Entry) :
    filling.Adds (filling.push row column action) fun other place =>
      if other = row ∧ place = column then [action] else [] := by
  refine ⟨?_, rfl⟩
  intro other place
  show (filling.cells.insert (row, column) _).getD (other, place) [] = _
  rw [Std.HashMap.getD_insert]
  by_cases same : other = row ∧ place = column
  · obtain ⟨rfl, rfl⟩ := same
    simp
  · have different : ¬(row = other ∧ column = place) := fun equal =>
      same ⟨equal.1.symm, equal.2.symm⟩
    simp [same, different, actions]

/-- A loop adds what its steps add. -/
theorem adds_foldl {Item : Type}
    {step : Filling Row Entry Skipped → Item → Filling Row Entry Skipped}
    {added : Item → Row → Nat → List Entry} {items : List Item}
    (each : ∀ filling, ∀ item ∈ items, Adds filling (step filling item) (added item))
    (filling : Filling Row Entry Skipped) :
    filling.Adds (items.foldl step filling) fun row column =>
      items.flatMap fun item => added item row column := by
  induction items generalizing filling with
  | nil => exact ⟨fun row column => (List.append_nil _).symm, rfl⟩
  | cons item items inductionHypothesis =>
      have head := each filling item List.mem_cons_self
      have tail := inductionHypothesis
        (fun filling other member => each filling other (List.mem_cons_of_mem item member))
        (step filling item)
      refine ⟨?_, tail.skipped_eq.trans head.skipped_eq⟩
      intro row column
      rw [List.foldl_cons, tail.actions_eq, head.actions_eq, List.flatMap_cons, List.append_assoc]

/-- Pushing actions one after the other adds them in their order. -/
theorem adds_pushes {Item : Type} (items : List Item) (view : Item → Entry) (row : Row)
    (column : Nat) :
    filling.Adds (items.foldl (fun filling item => filling.push row column (view item)) filling)
      fun other place => if other = row ∧ place = column then items.map view else [] := by
  refine (adds_foldl (fun before item _ => adds_push row column (view item)) filling).congr ?_
  intro other place
  by_cases same : other = row ∧ place = column <;> simp [same, List.map_eq_flatMap]

theorem Adds.trans {before middle after : Filling Row Entry Skipped}
    {first second : Row → Nat → List Entry} (head : Adds before middle first)
    (tail : Adds middle after second) :
    Adds before after fun row column => first row column ++ second row column := by
  refine ⟨?_, tail.skipped_eq.trans head.skipped_eq⟩
  intro row column
  rw [tail.actions_eq, head.actions_eq, List.append_assoc]

end Cells

variable {filling : OfLookahead} {grammar : Grammar} {axis : Axis}

/-- What the row of a state adds to a cell. -/
def addedByRow (axis : Axis) (number : Nat) (row : BoundedString × Choice) (symbol : StackSymbol)
    (place : Nat) : List Action :=
  if symbol = .state number ∧ axis.index? row.1.terminals = some place then [row.2.action] else []

/-- What a state, given with its number, adds to a cell. -/
def addedByState (axis : Axis) (state : State × Nat) (symbol : StackSymbol) (place : Nat) :
    List Action :=
  if symbol = .state state.2 then
    (state.1.rows.filter fun row => axis.index? row.1.terminals = some place).map
      fun row => row.2.action
  else []

/-- What a column, given with its number, adds to a cell. -/
def addedByColumn (column : List Terminal × Nat) (symbol : StackSymbol) (place : Nat) :
    List Action :=
  if column.2 = place then
    if column.1.head?.map StackSymbol.terminal = some symbol then [.pop] else []
  else []

theorem adds_placeRow {number : Nat} {row : BoundedString × Choice}
    (ofGrammar : grammar.rule? row.2.rule.number = some row.2.rule)
    (landed : ∃ column, axis.index? row.1.terminals = some column) :
    filling.Adds (placeRow grammar axis number filling row) (addedByRow axis number row) := by
  obtain ⟨column, placed⟩ := landed
  have pushed : placeRow grammar axis number filling row =
      filling.push (.state number) column row.2.action := by
    simp only [placeRow, ofGrammar, placed]
    rfl
  rw [pushed]
  unfold addedByRow
  simpa only [placed, Option.some.injEq, eq_comm (a := column)] using
    adds_push (StackSymbol.state number) column row.2.action

theorem adds_placeState {state : State × Nat}
    (land : ∀ row ∈ state.1.rows, grammar.rule? row.2.rule.number = some row.2.rule ∧
      ∃ column, axis.index? row.1.terminals = some column) :
    filling.Adds (placeState grammar axis filling state) (addedByState axis state) := by
  have each : ∀ before, ∀ row ∈ state.1.rows,
      Adds before (placeRow grammar axis state.2 before row) (addedByRow axis state.2 row) :=
    fun _ row member => adds_placeRow (land row member).1 (land row member).2
  refine (adds_foldl each filling).congr ?_
  intro symbol place
  unfold addedByRow addedByState
  by_cases same : symbol = .state state.2
  · simp only [same, true_and, if_true]
    exact flatMap_ite _ _ _
  · simp only [same, false_and, if_false]
    exact List.flatMap_eq_nil_iff.mpr fun _ _ => rfl

theorem adds_placePop (column : List Terminal × Nat) :
    filling.Adds (placePop filling column) (addedByColumn column) := by
  unfold placePop addedByColumn
  cases head : column.1.head? with
  | none => exact ⟨by simp, rfl⟩
  | some terminal =>
      refine ⟨?_, rfl⟩
      intro symbol place
      rw [(adds_push _ _ _).actions_eq]
      simp only [Option.map_some, Option.some.injEq, eq_comm (a := symbol), eq_comm (a := place)]
      by_cases same : column.2 = place <;> simp [same]

/-! ### What the loops add -/

theorem addedByStates_state {table : LookaheadTable} {limit : Nat}
    (limited : ∀ state ∈ table.states, ∀ choice ∈ state.choices, ∀ string ∈ choice.lookaheads,
      string.limit = limit) (number column : Nat) :
    (table.states.zipIdx.flatMap fun state =>
        addedByState table.axis state (.state number) column) =
      table.actions (.state number) column := by
  have single := flatMap_zipIdx_of_number (fun state : State =>
    (state.rows.filter fun row => table.axis.index? row.1.terminals = some column).map
      fun row => row.2.action) table.states 0 number
  simp only [addedByState, StackSymbol.state.injEq, eq_comm (a := number)]
  rw [Nat.zero_add] at single
  refine single.trans ?_
  cases found : table.states[number]? with
  | none =>
      have missing (lookahead : List Terminal) :
          table.actionsOn (.state number) lookahead = [] := by
        simp only [LookaheadTable.actionsOn, LookaheadTable.state?, found]
      unfold LookaheadTable.actions
      cases table.axis.column? column <;> simp [missing]
  | some state =>
      exact (LookaheadTable.actions_state found (limited state (List.mem_of_getElem? found))
        column).symm

theorem addedByColumns {table : LookaheadTable} (symbol : StackSymbol) (column : Nat) :
    (table.axis.columns.zipIdx.flatMap fun item => addedByColumn item symbol column) =
      match table.axis.column? column with
      | some lookahead =>
          if lookahead.head?.map StackSymbol.terminal = some symbol then [.pop] else []
      | none => [] := by
  have single := flatMap_zipIdx_of_number (fun lookahead : List Terminal =>
    if lookahead.head?.map StackSymbol.terminal = some symbol then [Action.pop] else [])
    table.axis.columns 0 column
  rw [Nat.zero_add] at single
  refine single.trans ?_
  unfold Axis.column?
  cases table.axis.columns[column]? <;> rfl

/-- The pass leaves no row out and fills every cell with its actions. -/
theorem adds_ofTable {table : LookaheadTable} {limit : Nat} (lands : table.RowsLand grammar)
    (limited : ∀ state ∈ table.states, ∀ choice ∈ state.choices, ∀ string ∈ choice.lookaheads,
      string.limit = limit) :
    empty.Adds (ofTable grammar table) table.actions := by
  have eachState : ∀ before, ∀ state ∈ table.states.zipIdx,
      Adds before (placeState grammar table.axis before state) (addedByState table.axis state) :=
    fun _ state member => adds_placeState (lands state.1 (List.fst_mem_of_mem_zipIdx member))
  have eachColumn : ∀ before, ∀ column ∈ table.axis.columns.zipIdx,
      Adds before (placePop before column) (addedByColumn column) :=
    fun _ column _ => adds_placePop column
  have all := ((adds_foldl eachState empty).trans (adds_foldl eachColumn _)).trans
    (adds_push .bottom table.axis.endColumn .accept)
  refine all.congr ?_
  intro row column
  rw [addedByColumns]
  -- Each loop fills rows of its own kind, so two of the three add nothing to this cell.
  cases row with
  | state number =>
      rw [addedByStates_state limited]
      cases table.axis.column? column <;> simp
  | terminal terminal =>
      have noExpansion : (table.states.zipIdx.flatMap fun state =>
          addedByState table.axis state (.terminal terminal) column) = [] :=
        List.flatMap_eq_nil_iff.mpr fun _ _ => rfl
      rw [noExpansion]
      unfold LookaheadTable.actions
      cases table.axis.column? column <;> simp [LookaheadTable.actionsOn]
  | bottom =>
      have noExpansion : (table.states.zipIdx.flatMap fun state =>
          addedByState table.axis state .bottom column) = [] :=
        List.flatMap_eq_nil_iff.mpr fun _ _ => rfl
      rw [noExpansion, LookaheadTable.actions_bottom]
      cases table.axis.column? column <;> simp

end Filling

end Predictive
