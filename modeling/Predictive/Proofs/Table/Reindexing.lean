import Predictive.Proofs.Grammar.Draft
import Predictive.Proofs.Table.BufferedFilling

/-!
Contract: the buffered table is the lookahead table read one input symbol at a time.

Owns: which buffers are columns, what every row of the buffered table does in every column, the
cells it lists, that filling them one by one comes to the same, and that it has the conflicts of
the lookahead table and no others.
Does not own: runs.

A column of the lookahead table becomes the full buffer that it is padded to, and what a row
holds there is carried over action by action. All other columns are the short buffers, in which
only an input symbol is taken in. So nothing is said about the grammar here: any table will do,
be it deterministic or not, as long as its lookahead is not empty.
-/

namespace Predictive

/-- An action under a lookahead, with the buffer that a pop leaves: one symbol short if the
lookahead was full, and filled up again with an end mark if the input had ended before. -/
def carried (length : Nat) (lookahead : List Terminal) : Action → BufferedAction
  | .accept => .accept
  | .pop =>
      .pop (if lookahead.length = length then lookahead.tail.map .terminal
        else pad length lookahead.tail)
  | .expand rule replacement => .expand rule replacement

/-- What makes a buffered table the lookahead table read one input symbol at a time. Places in
the lookahead table are counted on behind the short buffers. -/
structure IsReindexed (table : LookaheadTable) (buffered : BufferedTable) : Prop where
  length_eq : buffered.length = table.length
  rows_eq : buffered.rows = table.rows.map .stack ++
    ((List.range table.terminals).map .input ++ [.inputEnd])
  columns_nodup : buffered.columns.Nodup
  index?_iff : ∀ buffer place,
    buffered.index? buffer = some place ↔ buffered.column? place = some buffer
  pad_inj : ∀ first ∈ table.axis.columns, ∀ second ∈ table.axis.columns,
    pad table.length first = pad table.length second → first = second
  pad_column : ∀ column lookahead, table.axis.column? column = some lookahead →
    buffered.column? (buffered.shortColumns.length + column) = some (pad table.length lookahead)
  /-- The columns are the strings of terminals that leave room, the empty one among them, and the
  padded columns of the lookahead table. -/
  mem_columns_iff : ∀ buffer, buffer ∈ buffered.columns ↔
    (buffer.length < table.length ∧ ∃ word : List Terminal,
      (∀ terminal ∈ word, terminal < table.terminals) ∧ buffer = word.map .terminal) ∨
      (buffer.length = table.length ∧
        ∃ lookahead ∈ table.axis.columns, buffer = pad table.length lookahead)
  stack_full : ∀ row column lookahead, table.axis.column? column = some lookahead →
    buffered.actions (.stack row) (buffered.shortColumns.length + column) =
      (table.actions row column).map (carried table.length lookahead)
  stack_short : ∀ row place buffer, buffered.column? place = some buffer →
    buffer.length < table.length → buffered.actions (.stack row) place = []
  /-- Whatever is shorter than the lookahead has a place, and there every input row has one change,
  which takes its symbol in. -/
  short_changes : ∀ word : List Terminal, word.length < table.length →
    (∀ terminal ∈ word, terminal < table.terminals) →
      ∃ place, buffered.index? (word.map .terminal) = some place ∧
        (∀ terminal < table.terminals, buffered.actions (.input terminal) place =
          [.change ((word ++ [terminal]).map .terminal)]) ∧
        buffered.actions .inputEnd place = [.change (pad table.length word)]
  input_short : ∀ terminal < table.terminals, ∀ place buffer,
    buffered.column? place = some buffer → buffer.length < table.length →
      buffered.actions (.input terminal) place = [.change (buffer ++ [.terminal terminal])]
  inputEnd_short : ∀ place buffer, buffered.column? place = some buffer →
    buffer.length < table.length →
      buffered.actions .inputEnd place = [.change (fill table.length buffer)]
  input_full : ∀ row ∈ buffered.inputRows, ∀ place buffer,
    buffered.column? place = some buffer → buffer.length = table.length →
      buffered.actions row place = []
  no_other : ∀ row place, buffered.actions row place ≠ [] →
    row ∈ buffered.rows ∧ place < buffered.columns.length
  /-- The two passes over the columns put the same buffers together. -/
  buffers_eq : table.buffers = buffered.columns
  /-- Filling cell by cell comes to the same actions. -/
  filled : ∀ row place,
    (Filling.ofLookahead table).actions row place = buffered.actions row place
  none_skipped : (Filling.ofLookahead table).skipped = []
  targets : ∀ row place target,
    .pop target ∈ buffered.actions row place ∨ .change target ∈ buffered.actions row place →
      target ∈ buffered.columns
  cells_iff : ∀ cell, cell ∈ buffered.cells ↔
    buffered.column? cell.column = some cell.buffer ∧
      cell.actions = buffered.actions cell.row cell.column ∧ cell.actions ≠ []
  conflict_iff : ∀ row place, 1 < (buffered.actions row place).length ↔
    ∃ top column, row = .stack top ∧ place = buffered.shortColumns.length + column ∧
      1 < (table.actions top column).length
  conflicts_eq : buffered.conflicts =
    table.conflicts.map (buffered.ofCell buffered.shortColumns.length)
  deterministic_iff : buffered.isDeterministic = true ↔ table.isDeterministic = true
  deterministic_iff_filled : buffered.isDeterministic = true ↔
    ∀ row place, ((Filling.ofLookahead table).actions row place).length ≤ 1

namespace BufferedTable

variable {table : BufferedTable}

theorem carry_eq_carried {length : Nat} {lookahead : List Terminal}
    (fits : lookahead.length ≤ length) (action : Action) :
    carry length lookahead action = carried length lookahead action := by
  cases action with
  | accept => rfl
  | expand rule replacement => rfl
  | pop =>
      unfold carry carried
      by_cases full : lookahead.length = length
      · rw [if_pos full, if_neg (by omega), pad_of_length_eq full, List.map_tail, List.append_nil]
      · have short : lookahead.length < length := Nat.lt_of_le_of_ne fits full
        rw [if_neg full, if_pos short]
        cases lookahead with
        | nil =>
            obtain ⟨marks, rfl⟩ := Nat.exists_eq_succ_of_ne_zero (Nat.ne_of_gt short)
            simp [pad, fill, List.replicate_succ, ← List.replicate_succ']
        | cons terminal rest => rw [tail_pad_append short, List.tail_cons]

/-! ### Actions carried over -/

theorem actionsOn_stack_pad {lookahead : List Terminal} (fits : lookahead.length ≤ table.length)
    (row : StackSymbol) : table.actionsOn (.stack row) (pad table.length lookahead) =
      (table.lookahead.actionsOn row lookahead).map (carried table.length lookahead) := by
  rw [actionsOn_stack_full fits]
  exact List.map_congr_left fun action _ => carry_eq_carried fits action

/-- A pushdown row acts where a padded lookahead stands, and carries over what the row of the
lookahead table does there. -/
theorem actions_stack_add (row : StackSymbol) (column : Nat) {lookahead : List Terminal}
    (atColumn : table.lookahead.axis.column? column = some lookahead) :
    table.actions (.stack row) (table.shortColumns.length + column) =
      (table.lookahead.actions row column).map (carried table.length lookahead) := by
  rw [actions, column?_add, atColumn, Option.map_some, LookaheadTable.actions, atColumn]
  exact actionsOn_stack_pad (fits_of_column? atColumn).2 row

theorem mem_inputRows {row : BufferedRow} : row ∈ table.inputRows ↔
    row = .inputEnd ∨ ∃ terminal < table.terminals, row = .input terminal := by
  simp only [inputRows, List.mem_append, List.mem_map, List.mem_range, List.mem_singleton]
  constructor
  · rintro (⟨terminal, known, rfl⟩ | rfl)
    · exact .inr ⟨terminal, known, rfl⟩
    · exact .inl rfl
  · rintro (rfl | ⟨terminal, known, rfl⟩)
    · exact .inr rfl
    · exact .inl ⟨terminal, known, rfl⟩

theorem ne_stack_of_mem_inputRows {row : BufferedRow} (listed : row ∈ table.inputRows)
    (symbol : StackSymbol) : row ≠ .stack symbol := by
  rcases mem_inputRows.mp listed with rfl | ⟨terminal, _, rfl⟩ <;> simp

theorem length_actionsOn_input_le {row : BufferedRow} (input : ∀ symbol, row ≠ .stack symbol)
    (buffer : List BufferSymbol) : (table.actionsOn row buffer).length ≤ 1 := by
  cases row with
  | stack symbol => exact absurd rfl (input symbol)
  | input terminal => rw [actionsOn]; split <;> simp
  | inputEnd => rw [actionsOn]; split <;> simp

/-- All that a row can do at a place. -/
inductive Acts (table : BufferedTable) : BufferedRow → Nat → BufferedAction → Prop where
  | carries {symbol : StackSymbol} {column : Nat} {lookahead : List Terminal} {action : Action}
      (atColumn : table.lookahead.axis.column? column = some lookahead)
      (member : action ∈ table.lookahead.actionsOn symbol lookahead) :
      Acts table (.stack symbol) (table.shortColumns.length + column)
        (carried table.length lookahead action)
  | takes {terminal : Terminal} {place : Nat} {word : List Terminal}
      (known : terminal < table.terminals) (short : word.length < table.length)
      (held : table.lookahead.axis.contains word = true)
      (atPlace : table.shortColumns[place]? = some (word.map .terminal)) :
      Acts table (.input terminal) place (.change ((word ++ [terminal]).map .terminal))
  | ends {place : Nat} {word : List Terminal} (short : word.length < table.length)
      (held : table.lookahead.axis.contains word = true)
      (atPlace : table.shortColumns[place]? = some (word.map .terminal)) :
      Acts table .inputEnd place (.change (pad table.length word))

/-- Where there is room in a buffer the place is that of a short column. -/
theorem exists_word_of_column? (positive : 0 < table.length) {place : Nat}
    {buffer : List BufferSymbol} (found : table.column? place = some buffer)
    (short : buffer.length < table.length) : ∃ word, word.length < table.length ∧
      table.lookahead.axis.contains word = true ∧ buffer = word.map .terminal ∧
        table.shortColumns[place]? = some buffer := by
  rcases column?_cases found with inShort | ⟨_, lookahead, _, atColumn, rfl⟩
  · obtain ⟨word, fits, held, same⟩ :=
      (mem_shortColumns positive).mp (List.mem_of_getElem? inShort)
    exact ⟨word, fits, held, same, inShort⟩
  · rw [length_pad (fits_of_column? atColumn).2] at short
    exact absurd short (Nat.lt_irrefl _)

theorem acts_of_mem (positive : 0 < table.length) {row : BufferedRow} {place : Nat}
    {action : BufferedAction} (member : action ∈ table.actions row place) :
    table.Acts row place action := by
  obtain ⟨buffer, found⟩ := exists_column?_of_actions (List.ne_nil_of_mem member)
  rw [actions_of_column? found] at member
  cases row with
  | stack symbol =>
      rcases column?_cases found with short | ⟨column, lookahead, rfl, atColumn, rfl⟩
      · rw [actionsOn_stack_short
          (length_of_mem_shortColumns positive (List.mem_of_getElem? short))] at member
        exact absurd member List.not_mem_nil
      · rw [actionsOn_stack_pad (fits_of_column? atColumn).2] at member
        obtain ⟨source, inSource, rfl⟩ := List.mem_map.mp member
        exact .carries atColumn inSource
  | input terminal =>
      rw [actionsOn] at member
      split at member
      · rename_i room
        obtain ⟨word, short, held, rfl, atPlace⟩ := exists_word_of_column? positive found room.1
        cases List.mem_singleton.mp member
        rw [← List.map_singleton, ← List.map_append]
        exact .takes room.2 short held atPlace
      · exact absurd member List.not_mem_nil
  | inputEnd =>
      rw [actionsOn] at member
      split at member
      · rename_i room
        obtain ⟨word, short, held, rfl, atPlace⟩ := exists_word_of_column? positive found room
        cases List.mem_singleton.mp member
        exact .ends short held atPlace
      · exact absurd member List.not_mem_nil

theorem exists_acts (positive : 0 < table.length) {row : BufferedRow} {place : Nat}
    (acts : table.actions row place ≠ []) : ∃ action, table.Acts row place action := by
  obtain ⟨action, member⟩ := List.exists_mem_of_ne_nil _ acts
  exact ⟨action, acts_of_mem positive member⟩

theorem Acts.mem_rows {row : BufferedRow} {place : Nat} {action : BufferedAction}
    (acts : table.Acts row place action) : row ∈ table.rows := by
  cases acts with
  | carries atColumn member =>
      have listed := LookaheadTable.mem_rows_of_actionsOn (fits_of_column? atColumn).1
        (List.ne_nil_of_mem member)
      exact List.mem_append_left _ (List.mem_map.mpr ⟨_, listed, rfl⟩)
  | takes known _ _ _ => exact List.mem_append_right _ (mem_inputRows.mpr (.inr ⟨_, known, rfl⟩))
  | ends _ _ _ => exact List.mem_append_right _ (mem_inputRows.mpr (.inl rfl))

/-! ### Targets -/

theorem pad_mem_columns {word : List Terminal}
    (held : table.lookahead.axis.contains word = true) : pad table.length word ∈ table.columns :=
  List.mem_append_right _ (List.mem_map.mpr ⟨word, Axis.mem_columns.mpr held, rfl⟩)

theorem map_mem_columns (positive : 0 < table.length) {word : List Terminal}
    (held : table.lookahead.axis.contains word = true) :
    word.map .terminal ∈ table.columns := by
  have fits : word.length ≤ table.length := (Axis.contains_iff.mp held).1
  rcases Nat.lt_or_eq_of_le fits with short | full
  · exact List.mem_append_left _ ((mem_shortColumns positive).mpr ⟨word, short, held, rfl⟩)
  · rw [← pad_of_length_eq full]
    exact pad_mem_columns held

theorem mem_columns (positive : 0 < table.length) {buffer : List BufferSymbol} :
    buffer ∈ table.columns ↔
      (buffer.length < table.length ∧ ∃ word : List Terminal,
        (∀ terminal ∈ word, terminal < table.terminals) ∧ buffer = word.map .terminal) ∨
        (buffer.length = table.length ∧
          ∃ lookahead ∈ table.lookahead.axis.columns, buffer = pad table.length lookahead) := by
  constructor
  · intro member
    rcases List.mem_append.mp member with short | full
    · obtain ⟨word, fits, held, rfl⟩ := (mem_shortColumns positive).mp short
      exact .inl ⟨length_of_mem_shortColumns positive short, word,
        (Axis.contains_iff.mp held).2, rfl⟩
    · obtain ⟨lookahead, inColumns, rfl⟩ := List.mem_map.mp full
      have fits := (Axis.contains_iff.mp (Axis.mem_columns.mp inColumns)).1
      exact .inr ⟨length_pad fits, lookahead, inColumns, rfl⟩
  · rintro (⟨short, word, known, rfl⟩ | ⟨_, lookahead, inColumns, rfl⟩)
    · rw [List.length_map] at short
      exact map_mem_columns positive (Axis.contains_iff.mpr ⟨Nat.le_of_lt short, known⟩)
    · exact pad_mem_columns (Axis.mem_columns.mp inColumns)

/-- Every string of terminals that leaves room takes in whatever comes next. -/
theorem short_changes (positive : 0 < table.length) {word : List Terminal}
    (short : word.length < table.length) (known : ∀ terminal ∈ word, terminal < table.terminals) :
    ∃ place, table.index? (word.map .terminal) = some place ∧
      (∀ terminal < table.terminals, table.actions (.input terminal) place =
        [.change ((word ++ [terminal]).map .terminal)]) ∧
      table.actions .inputEnd place = [.change (pad table.length word)] := by
  have held : table.lookahead.axis.contains word = true :=
    Axis.contains_iff.mpr ⟨Nat.le_of_lt short, known⟩
  have room : (word.map BufferSymbol.terminal).length < table.length := by
    rwa [List.length_map]
  obtain ⟨place, found⟩ := List.mem_iff_getElem?.mp (map_mem_columns positive held)
  refine ⟨place, (index?_eq_some_iff positive).mpr found, ?_, ?_⟩
  · intro terminal next
    rw [actions_of_column? found, actionsOn, if_pos ⟨room, next⟩, List.map_append,
      List.map_singleton]
  · rw [actions_of_column? found, actionsOn, if_pos room]
    rfl

/-- What a pop or a change makes of a column is a column. -/
theorem Acts.mem_columns (positive : 0 < table.length) {row : BufferedRow} {place : Nat}
    {action : BufferedAction} (acts : table.Acts row place action) {target : List BufferSymbol}
    (moves : action = .pop target ∨ action = .change target) : target ∈ table.columns := by
  cases acts with
  | @carries symbol column lookahead source atColumn _ =>
      have held := (fits_of_column? atColumn).1
      have tailHeld : table.lookahead.axis.contains lookahead.tail = true := by
        cases lookahead with
        | nil => exact held
        | cons terminal rest => exact Axis.contains_of_cons held
      cases source <;> simp only [carried, BufferedAction.pop.injEq, reduceCtorEq, or_false] at moves
      subst moves
      split
      · exact map_mem_columns positive tailHeld
      · exact pad_mem_columns tailHeld
  | @takes terminal _ word known short held _ =>
      simp only [BufferedAction.change.injEq, reduceCtorEq, false_or] at moves
      subst moves
      refine map_mem_columns positive ?_
      have fits : word.length + 1 ≤ table.lookahead.axis.length := short
      rw [Axis.contains_iff] at held ⊢
      refine ⟨by simpa using fits, ?_⟩
      intro other member
      rcases List.mem_append.mp member with earlier | last
      · exact held.2 other earlier
      · exact List.mem_singleton.mp last ▸ known
  | ends _ held _ =>
      simp only [BufferedAction.change.injEq, reduceCtorEq, false_or] at moves
      subst moves
      exact pad_mem_columns held

/-! ### Cells and conflicts -/

theorem mem_changeCells {cell : BufferedCell} : cell ∈ table.changeCells ↔
    cell.row ∈ table.inputRows ∧ table.shortColumns[cell.column]? = some cell.buffer ∧
      cell.actions = table.actionsOn cell.row cell.buffer ∧ cell.actions ≠ [] := by
  simp only [changeCells, List.mem_flatMap, List.mem_filterMap, Prod.exists]
  constructor
  · rintro ⟨row, listed, buffer, column, place, made⟩
    split at made
    · exact absurd made (by simp)
    · rename_i action more actions
      cases made
      exact ⟨listed, List.mem_zipIdx_iff_getElem?.mp place, actions.symm, by simp⟩
  · rintro ⟨listed, found, actions, acts⟩
    refine ⟨cell.row, listed, cell.buffer, cell.column, List.mem_zipIdx_iff_getElem?.mpr found, ?_⟩
    obtain ⟨row, column, buffer, made⟩ := cell
    simp only at actions acts ⊢
    subst actions
    split
    · rename_i none
      exact absurd none acts
    · rename_i action more same
      rw [same]

/-- What a pushdown row does behind the short buffers is what a cell of the lookahead table
carries over. -/
theorem map_carry_actionsOn (row : StackSymbol) {column : Nat} {lookahead : List Terminal}
    (atColumn : table.lookahead.axis.column? column = some lookahead) :
    (table.lookahead.actionsOn row lookahead).map (carry table.length lookahead) =
      table.actions (.stack row) (table.shortColumns.length + column) := by
  rw [actions_stack_add row column atColumn, LookaheadTable.actions, atColumn]
  exact List.map_congr_left fun action _ => carry_eq_carried (fits_of_column? atColumn).2 action

/-- The cells are the places of rows and columns at which something is done. -/
theorem mem_cells (positive : 0 < table.length) {cell : BufferedCell} :
    cell ∈ table.cells ↔ table.column? cell.column = some cell.buffer ∧
      cell.actions = table.actions cell.row cell.column ∧ cell.actions ≠ [] := by
  rw [cells, List.mem_append, List.mem_map, mem_changeCells]
  constructor
  · rintro (⟨source, member, rfl⟩ | ⟨listed, found, actions, acts⟩)
    · obtain ⟨row, _, lookahead, column, place, acts, rfl⟩ := LookaheadTable.mem_cells.mp member
      have atColumn : table.lookahead.axis.column? column = some lookahead :=
        List.mem_zipIdx_iff_getElem?.mp place
      refine ⟨?_, map_carry_actionsOn row atColumn, by simpa [ofCell] using acts⟩
      rw [ofCell, column?_add, atColumn, Option.map_some]
    · have atColumn := column?_of_shortColumns found
      exact ⟨atColumn, by rw [actions, actions_of_column? atColumn], acts⟩
  · obtain ⟨row, place, buffer, actions⟩ := cell
    rintro ⟨found, same, acts⟩
    simp only at found same acts
    subst same
    obtain ⟨_, does⟩ := exists_acts positive acts
    cases does with
    | @carries symbol column lookahead _ atColumn _ =>
        rw [column?_add, atColumn, Option.map_some, Option.some.injEq] at found
        rw [← map_carry_actionsOn symbol atColumn, ne_eq, List.map_eq_nil_iff] at acts
        have held := (fits_of_column? atColumn).1
        refine .inl ⟨⟨symbol, column, lookahead, table.lookahead.actionsOn symbol lookahead⟩,
          LookaheadTable.mem_cells.mpr ⟨symbol, LookaheadTable.mem_rows_of_actionsOn held acts,
            lookahead, column, List.mem_zipIdx_iff_getElem?.mpr atColumn, acts, rfl⟩, ?_⟩
        rw [ofCell, found, map_carry_actionsOn symbol atColumn]
    | takes known _ _ atPlace =>
        cases found.symm.trans (column?_of_shortColumns atPlace)
        exact .inr ⟨mem_inputRows.mpr (.inr ⟨_, known, rfl⟩), atPlace,
          actions_of_column? found _, acts⟩
    | ends _ _ atPlace =>
        cases found.symm.trans (column?_of_shortColumns atPlace)
        exact .inr ⟨mem_inputRows.mpr (.inl rfl), atPlace, actions_of_column? found _, acts⟩

/-- Only where the lookahead table has a choice does the buffered one. -/
theorem one_lt_length_actions_iff (positive : 0 < table.length) {row : BufferedRow}
    {place : Nat} : 1 < (table.actions row place).length ↔
      ∃ top column, row = .stack top ∧ place = table.shortColumns.length + column ∧
        1 < (table.lookahead.actions top column).length := by
  constructor
  · intro several
    have acts : table.actions row place ≠ [] := List.length_pos_iff.mp (by omega)
    obtain ⟨buffer, found⟩ := exists_column?_of_actions acts
    have single (input : ∀ symbol, row ≠ .stack symbol) : (table.actions row place).length ≤ 1 := by
      rw [actions_of_column? found]
      exact length_actionsOn_input_le input buffer
    obtain ⟨_, does⟩ := exists_acts positive acts
    cases does with
    | @carries symbol column lookahead _ atColumn _ =>
        rw [actions_stack_add symbol column atColumn, List.length_map] at several
        exact ⟨symbol, column, rfl, rfl, several⟩
    | takes known _ _ _ => exact absurd several (Nat.not_lt_of_ge (single (by simp)))
    | ends _ _ _ => exact absurd several (Nat.not_lt_of_ge (single (by simp)))
  · rintro ⟨top, column, rfl, rfl, several⟩
    cases atColumn : table.lookahead.axis.column? column with
    | none => simp [LookaheadTable.actions, atColumn] at several
    | some lookahead => rwa [actions_stack_add top column atColumn, List.length_map]

theorem conflicts_eq : table.conflicts =
    table.lookahead.conflicts.map (table.ofCell table.shortColumns.length) := by
  have single : ∀ cell ∈ table.changeCells, ¬ decide (1 < cell.actions.length) = true := by
    intro cell member
    obtain ⟨listed, _, actions, _⟩ := mem_changeCells.mp member
    have atMost : (table.actionsOn cell.row cell.buffer).length ≤ 1 :=
      length_actionsOn_input_le (ne_stack_of_mem_inputRows listed) cell.buffer
    simp only [actions, decide_eq_true_eq]
    omega
  unfold conflicts cells LookaheadTable.conflicts
  rw [List.filter_append, List.filter_eq_nil_iff.mpr single, List.append_nil, List.filter_map]
  congr 2
  funext cell
  simp [ofCell]

theorem isDeterministic_iff :
    table.isDeterministic = true ↔ table.lookahead.isDeterministic = true := by
  have same : table.conflicts = [] ↔ table.lookahead.conflicts = [] := by
    rw [conflicts_eq, List.map_eq_nil_iff]
  rw [← LookaheadTable.conflicts_eq_nil_iff, ← same]
  unfold isDeterministic conflicts
  rw [List.filter_eq_nil_iff, List.all_eq_true]
  simp

theorem isDeterministic_iff_actions (positive : 0 < table.length) :
    table.isDeterministic = true ↔ ∀ row place, (table.actions row place).length ≤ 1 := by
  simp only [isDeterministic, List.all_eq_true, decide_eq_true_eq]
  constructor
  · intro single row place
    by_cases acts : table.actions row place = []
    · rw [acts]
      exact Nat.zero_le _
    · obtain ⟨buffer, found⟩ := exists_column?_of_actions acts
      exact single ⟨row, place, buffer, table.actions row place⟩
        ((mem_cells positive).mpr ⟨found, rfl, acts⟩)
  · intro single cell listed
    rw [((mem_cells positive).mp listed).2.1]
    exact single cell.row cell.column

/-! ### The whole table -/

theorem actions_ofLookahead (positive : 0 < table.length) (row : BufferedRow) (place : Nat) :
    (Filling.ofLookahead table.lookahead).actions row place = table.actions row place := by
  rw [(adds_ofLookahead positive).actions_eq, Filling.actions_empty]
  exact List.nil_append _

theorem isReindexed (table : BufferedTable) (positive : 0 < table.length) :
    IsReindexed table.lookahead table where
  length_eq := rfl
  rows_eq := rfl
  columns_nodup := nodup_columns positive
  index?_iff _ _ := index?_eq_some_iff positive
  pad_inj _ _ _ _ same := pad_injective _ same
  pad_column column lookahead atColumn := by
    rw [column?_add, atColumn, Option.map_some]
    rfl
  mem_columns_iff _ := mem_columns positive
  stack_full row column _ atColumn := actions_stack_add row column atColumn
  stack_short row _ _ found short := by
    rw [actions_of_column? found, actionsOn_stack_short short]
  short_changes word short known := short_changes positive short known
  input_short terminal known _ _ found short := by
    rw [actions_of_column? found, actionsOn, if_pos ⟨short, known⟩]
  inputEnd_short _ buffer found short := by
    have room : buffer.length < table.length := short
    rw [actions_of_column? found, actionsOn, if_pos room]
    rfl
  input_full row listed _ buffer found full := by
    rw [actions_of_column? found]
    exact actionsOn_input_full (ne_stack_of_mem_inputRows listed)
      (Nat.not_lt_of_ge (Nat.le_of_eq full.symm))
  no_other row place acts := by
    obtain ⟨buffer, found⟩ := exists_column?_of_actions acts
    obtain ⟨action, does⟩ := exists_acts positive acts
    exact ⟨does.mem_rows, (List.getElem?_eq_some_iff.mp found).1⟩
  buffers_eq := buffers_eq positive
  filled := actions_ofLookahead positive
  none_skipped := (adds_ofLookahead positive).skipped_eq
  targets row place target moves := by
    rcases moves with pops | changes
    · exact (acts_of_mem positive pops).mem_columns positive (.inl rfl)
    · exact (acts_of_mem positive changes).mem_columns positive (.inr rfl)
  cells_iff _ := mem_cells positive
  conflict_iff _ _ := one_lt_length_actions_iff positive
  conflicts_eq := conflicts_eq
  deterministic_iff := isDeterministic_iff
  deterministic_iff_filled := by
    simp only [actions_ofLookahead positive]
    exact isDeterministic_iff_actions positive

end BufferedTable

namespace Grammar

/-- Every table of a finished grammar, be it deterministic or not, is rearranged without loss. -/
theorem exists_isReindexed {draft : Draft} {grammar : Grammar}
    (finished : draft.finish = .ok grammar) {length : Nat} (valid : ValidLookahead length) :
    ∃ table, LookaheadTable.build grammar length = .ok table ∧ table.length = length ∧
      IsReindexed table ⟨table⟩ := by
  have wellFormed := Draft.wellFormed_of_finish finished
  refine ⟨grammar.canonicalTable length, wellFormed.build_eq valid, rfl, ?_⟩
  exact BufferedTable.isReindexed ⟨grammar.canonicalTable length⟩ valid.1

/-- Three short buffers and seven full ones for nested pairs under two terminals of lookahead. -/
theorem exists_isReindexed_nestedPairs : ∃ table,
    LookaheadTable.build nestedPairs 2 = .ok table ∧
      (BufferedTable.mk table).columns.map (List.length) = [0, 1, 1, 2, 2, 2, 2, 2, 2, 2] ∧
      IsReindexed table ⟨table⟩ := by
  obtain ⟨table, built, _, reindexed⟩ :=
    exists_isReindexed finish_nestedPairs (by decide : ValidLookahead 2)
  have evaluated : (LookaheadTable.build nestedPairs 2).toOption.map (fun table =>
      (BufferedTable.mk table).columns.map List.length) =
      some [0, 1, 1, 2, 2, 2, 2, 2, 2, 2] := by cbv
  rw [built] at evaluated
  exact ⟨table, built, Option.some.inj evaluated, reindexed⟩

end Grammar

end Predictive
