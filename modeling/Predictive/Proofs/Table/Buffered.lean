import Predictive.Proofs.Table.Column
import Predictive.Table.Buffered

/-!
Contract: the columns of the buffered table, and what it selects under short and under full
buffers.

Owns: padding and its inverse, the columns and the places of buffers among them, and the
selections of every row.
Does not own: runs.

A full buffer selects what the lookahead table selects under the same lookahead; a short
one takes in the next input symbol. Both hold of any table, be its cells those of a grammar
or not. Short and full buffers never meet, so the two parts of the columns differ throughout,
and a place says whether its buffer is full (`column?_cases`).
-/

namespace Predictive

/-! ### Padding -/

theorem length_pad {length : Nat} {word : List Terminal} (fits : word.length ≤ length) :
    (pad length word).length = length := by
  simp only [pad, fill, List.length_append, List.length_map, List.length_replicate]
  omega

theorem unpad?_map (word : List Terminal) : unpad? (word.map .terminal) = some word := by
  induction word with
  | nil => rfl
  | cons terminal word inductionHypothesis =>
      rw [List.map_cons, unpad?, inductionHypothesis, Option.map_some]

theorem unpad?_pad (length : Nat) (word : List Terminal) :
    unpad? (pad length word) = some word := by
  unfold pad fill
  rw [List.length_map]
  generalize length - word.length = marks
  induction word with
  | nil =>
      cases marks with
      | zero => rfl
      | succ marks => simp [List.replicate_succ, unpad?]
  | cons terminal word inductionHypothesis =>
      rw [List.map_cons, List.cons_append, unpad?, inductionHypothesis, Option.map_some]

/-- A buffer with nothing but end marks behind its terminals is padded to its own length. -/
theorem pad_of_unpad? {buffer : List BufferSymbol} {word : List Terminal}
    (terminals : unpad? buffer = some word) : pad buffer.length word = buffer := by
  induction buffer generalizing word with
  | nil =>
      cases terminals
      rfl
  | cons symbol rest inductionHypothesis =>
      cases symbol with
      | terminal number =>
          rw [unpad?, Option.map_eq_some_iff] at terminals
          obtain ⟨word, ofRest, rfl⟩ := terminals
          have padded := inductionHypothesis ofRest
          unfold pad fill at padded ⊢
          simpa using padded
      | endMark =>
          rw [unpad?] at terminals
          split at terminals
          · rename_i marks
            cases terminals
            simp only [List.all_eq_true, beq_iff_eq] at marks
            have same : rest = List.replicate rest.length .endMark :=
              List.eq_replicate_iff.mpr ⟨rfl, marks⟩
            simp only [pad, fill, List.map_nil, List.nil_append, List.length_nil, Nat.sub_zero,
              List.length_cons, List.replicate_succ]
            rw [← same]
          · exact absurd terminals (by simp)

theorem pad_injective (length : Nat) : Function.Injective (pad length) := by
  intro first second same
  have terminals := unpad?_pad length first
  rw [same, unpad?_pad] at terminals
  exact (Option.some.inj terminals).symm

theorem pad_of_length_eq {length : Nat} {word : List Terminal} (full : word.length = length) :
    pad length word = word.map .terminal := by
  simp [pad, fill, full]

/-- A popped buffer loses its first terminal; end marks make up for it if there are any. -/
theorem tail_pad_append {length : Nat} {terminal : Terminal} {word : List Terminal}
    (short : (terminal :: word).length < length) :
    (pad length (terminal :: word)).tail ++ [.endMark] = pad length word := by
  obtain ⟨marks, rfl⟩ := Nat.exists_eq_add_of_lt short
  have fewer : (terminal :: word).length + marks + 1 - (word.length + 1) = marks + 1 := by
    simp only [List.length_cons]
    omega
  have more : (terminal :: word).length + marks + 1 - word.length = marks + 2 := by
    simp only [List.length_cons]
    omega
  simp only [pad, fill, List.length_map, List.map_cons, List.cons_append, List.tail_cons,
    List.append_assoc, List.length_cons] at fewer more ⊢
  rw [fewer, more, ← List.replicate_succ']

namespace BufferedTable

variable {table : BufferedTable} {word : List Terminal}

/-! ### Columns -/

/-- The buffers that are not full are the empty one and the strings that leave room. -/
theorem shortColumns_eq (positive : 0 < table.length) :
    table.shortColumns = [] :: ((List.range (table.length - 1)).flatMap fun index =>
      stringsOfLength table.terminals (index + 1)).map (·.map .terminal) := by
  obtain ⟨room, full⟩ := Nat.exists_eq_succ_of_ne_zero (Nat.pos_iff_ne_zero.mp positive)
  have axisLength : table.lookahead.axis.length = room + 1 := full
  unfold shortColumns Axis.columns
  rw [axisLength, full, Nat.succ_sub_one, List.range_succ, List.flatMap_append, List.filter_append,
    List.filter_append, List.flatMap_singleton]
  have kept : ∀ string ∈ (List.range room).flatMap fun index =>
      stringsOfLength table.lookahead.axis.terminals (index + 1),
      (!string.isEmpty && string.length < room + 1) = true := by
    intro string member
    obtain ⟨index, inRange, inBlock⟩ := List.mem_flatMap.mp member
    have fits := (mem_stringsOfLength.mp inBlock).1
    have below := List.mem_range.mp inRange
    cases string with
    | nil => exact absurd fits (by simp)
    | cons terminal rest => simp only [List.length_cons] at fits ⊢; simp; omega
  have dropped : ∀ string ∈ stringsOfLength table.lookahead.axis.terminals (room + 1),
      ¬ (!string.isEmpty && string.length < room + 1) = true := by
    intro string member
    simp [(mem_stringsOfLength.mp member).1]
  rw [List.filter_eq_self.mpr kept, List.filter_eq_nil_iff.mpr dropped]
  simp [terminals, LookaheadTable.terminals]

theorem length_shortColumns (positive : 0 < table.length) :
    table.shortColumns.length = 1 + stringsUpTo table.terminals (table.length - 1) := by
  rw [shortColumns_eq positive, List.length_cons, List.length_map, length_strings, Nat.add_comm]

theorem mem_shortColumns (positive : 0 < table.length) {buffer : List BufferSymbol} :
    buffer ∈ table.shortColumns ↔ ∃ word, word.length < table.length ∧
      table.lookahead.axis.contains word = true ∧ buffer = word.map .terminal := by
  simp only [shortColumns, List.mem_cons, List.mem_map, List.mem_filter, Axis.mem_columns,
    Bool.and_eq_true, decide_eq_true_eq]
  constructor
  · rintro (rfl | ⟨word, ⟨held, _, short⟩, rfl⟩)
    · exact ⟨[], positive, by simp [Axis.contains], rfl⟩
    · exact ⟨word, short, held, rfl⟩
  · rintro ⟨word, short, held, rfl⟩
    cases word with
    | nil => exact .inl rfl
    | cons terminal rest => exact .inr ⟨terminal :: rest, ⟨held, rfl, short⟩, rfl⟩

theorem length_of_mem_shortColumns (positive : 0 < table.length) {buffer : List BufferSymbol}
    (member : buffer ∈ table.shortColumns) : buffer.length < table.length := by
  obtain ⟨word, short, _, rfl⟩ := (mem_shortColumns positive).mp member
  rwa [List.length_map]

theorem nodup_columns (positive : 0 < table.length) : table.columns.Nodup := by
  refine List.nodup_append.mpr ⟨?_, ?_, ?_⟩
  · have injective : Function.Injective (List.map BufferSymbol.terminal) :=
      List.map_injective_iff.mpr fun _ _ same => BufferSymbol.terminal.inj same
    rw [shortColumns_eq positive, List.nodup_cons]
    refine ⟨fun member => ?_, (nodup_strings _ _).map injective⟩
    obtain ⟨string, inStrings, empty⟩ := List.mem_map.mp member
    obtain ⟨index, _, inBlock⟩ := List.mem_flatMap.mp inStrings
    rw [List.map_eq_nil_iff.mp empty] at inBlock
    exact absurd (mem_stringsOfLength.mp inBlock).1 (by simp)
  · exact table.lookahead.axis.nodup_columns.map (pad_injective table.length)
  · rintro buffer short _ full rfl
    obtain ⟨lookahead, inColumns, rfl⟩ := List.mem_map.mp full
    have fits := (Axis.contains_iff.mp (Axis.mem_columns.mp inColumns)).1
    exact Nat.lt_irrefl _ (length_pad fits ▸ length_of_mem_shortColumns positive short)

/-- A column of the lookahead table stands, padded, as far behind the short buffers as it
stood from the left. -/
theorem column?_add (place : Nat) : table.column? (table.shortColumns.length + place) =
    (table.lookahead.axis.column? place).map (pad table.length) := by
  unfold column? columns Axis.column?
  rw [List.getElem?_append_right (Nat.le_add_right _ _), Nat.add_sub_cancel_left,
    List.getElem?_map]

theorem column?_of_shortColumns {place : Nat} {buffer : List BufferSymbol}
    (found : table.shortColumns[place]? = some buffer) : table.column? place = some buffer := by
  rwa [column?, columns, List.getElem?_append_left (List.getElem?_eq_some_iff.mp found).1]

theorem column?_cases {place : Nat} {buffer : List BufferSymbol}
    (found : table.column? place = some buffer) :
    (table.shortColumns[place]? = some buffer) ∨
      ∃ column lookahead, place = table.shortColumns.length + column ∧
        table.lookahead.axis.column? column = some lookahead ∧
          buffer = pad table.length lookahead := by
  by_cases short : place < table.shortColumns.length
  · rw [column?, columns, List.getElem?_append_left short] at found
    exact .inl found
  · obtain ⟨column, rfl⟩ := Nat.exists_eq_add_of_le (Nat.le_of_not_lt short)
    rw [column?_add, Option.map_eq_some_iff] at found
    obtain ⟨lookahead, atColumn, rfl⟩ := found
    exact .inr ⟨column, lookahead, rfl, atColumn, rfl⟩

/-! ### Places -/

theorem isSome_index?_pad (fits : word.length ≤ table.length) :
    (table.index? (pad table.length word)).isSome = table.lookahead.axis.contains word := by
  simp only [index?, unpad?_pad, length_pad fits, if_true, Option.isSome_map, Axis.isSome_index?]

theorem isSome_index?_map (short : word.length < table.length) :
    (table.index? (word.map .terminal)).isSome = table.lookahead.axis.contains word := by
  have notFull : ¬(word.map BufferSymbol.terminal).length = table.length := by
    rw [List.length_map]
    omega
  simp only [index?, unpad?_map, if_neg notFull]
  cases word with
  | nil => simp [Axis.contains]
  | cons terminal word =>
      have filled : (List.map BufferSymbol.terminal (terminal :: word)).isEmpty = false := rfl
      have same : (terminal :: word).length =
          (List.map BufferSymbol.terminal (terminal :: word)).length := by simp
      rw [filled, if_neg Bool.false_ne_true, if_pos same, Option.isSome_map, Axis.isSome_index?]

/-- A short string stands one place further right among the buffers than among the
lookaheads, behind the empty one. -/
theorem column?_succ (positive : 0 < table.length) {terminal : Terminal} {rest : List Terminal}
    (short : (terminal :: rest).length < table.length) {place : Nat}
    (placed : table.lookahead.axis.index? (terminal :: rest) = some place) :
    table.column? (1 + place) = some ((terminal :: rest).map .terminal) := by
  rw [Axis.index?_cons] at placed
  split at placed
  · rename_i held
    cases placed
    rw [List.length_cons] at short
    have found := getElem?_strings (Nat.lt_sub_of_add_lt short) (Axis.contains_iff.mp held).2
    have shifted : table.shortColumns[1 + (stringsUpTo table.lookahead.axis.terminals rest.length
        + numeral table.lookahead.axis.terminals (terminal :: rest))]? =
          some ((terminal :: rest).map .terminal) := by
      rw [shortColumns_eq positive, Nat.add_comm, List.getElem?_cons_succ, List.getElem?_map,
        terminals, LookaheadTable.terminals, found, Option.map_some]
    exact column?_of_shortColumns shifted
  · exact absurd placed (by simp)

theorem column?_of_index? (positive : 0 < table.length) {buffer : List BufferSymbol} {place : Nat}
    (placed : table.index? buffer = some place) : table.column? place = some buffer := by
  unfold index? at placed
  cases ofTerminals : unpad? buffer with
  | none => simp [ofTerminals] at placed
  | some word =>
      have padded := pad_of_unpad? ofTerminals
      simp only [ofTerminals] at placed
      split at placed
      · rename_i full
        obtain ⟨column, atColumn, rfl⟩ := Option.map_eq_some_iff.mp placed
        rw [← length_shortColumns positive, column?_add, Axis.column?_of_index? atColumn,
          Option.map_some, ← full, padded]
      · rename_i notFull
        split at placed
        · rename_i empty
          cases placed
          rw [List.isEmpty_iff.mp empty]
          rfl
        · rename_i filled
          split at placed
          · rename_i pure
            rw [pad_of_length_eq pure] at padded
            subst padded
            obtain ⟨column, atColumn, rfl⟩ := Option.map_eq_some_iff.mp placed
            cases word with
            | nil => exact absurd rfl filled
            | cons terminal rest =>
                have held : table.lookahead.axis.contains (terminal :: rest) = true := by
                  rw [← Axis.isSome_index?, atColumn, Option.isSome_some]
                have fits : (terminal :: rest).length ≤ table.length := (Axis.contains_iff.mp held).1
                rw [List.length_map] at notFull
                exact column?_succ positive (Nat.lt_of_le_of_ne fits notFull) atColumn
          · exact absurd placed (by simp)

/-- A buffer has a place exactly where it stands among the columns. -/
theorem index?_eq_some_iff (positive : 0 < table.length) {buffer : List BufferSymbol}
    {place : Nat} : table.index? buffer = some place ↔ table.column? place = some buffer := by
  refine ⟨column?_of_index? positive, fun found => ?_⟩
  have placed : (table.index? buffer).isSome := by
    rcases column?_cases found with short | ⟨column, lookahead, _, atColumn, rfl⟩
    · obtain ⟨word, fits, held, rfl⟩ := (mem_shortColumns positive).mp (List.mem_of_getElem? short)
      rwa [isSome_index?_map fits]
    · have held := Axis.mem_columns.mp (List.mem_of_getElem? atColumn)
      rwa [isSome_index?_pad (Axis.contains_iff.mp held).1]
  obtain ⟨other, atOther⟩ := Option.isSome_iff_exists.mp placed
  have same : table.columns[other]? = table.columns[place]? :=
    (column?_of_index? positive atOther).trans found.symm
  have inside := (List.getElem?_eq_some_iff.mp (column?_of_index? positive atOther)).1
  rw [atOther, (List.getElem?_inj inside (nodup_columns positive)).mp same]

/-! ### Actions by place -/

theorem actions_of_column? {place : Nat} {buffer : List BufferSymbol}
    (found : table.column? place = some buffer) (row : BufferedRow) :
    table.actions row place = table.actionsOn row buffer := by
  rw [actions, found]

theorem exists_column?_of_actions {row : BufferedRow} {place : Nat}
    (acts : table.actions row place ≠ []) : ∃ buffer, table.column? place = some buffer := by
  unfold actions at acts
  split at acts
  · exact ⟨_, ‹_›⟩
  · exact absurd rfl acts

/-- Under a full buffer a pushdown row does what it does in the lookahead table. -/
theorem actionsOn_stack_full (fits : word.length ≤ table.length) (row : StackSymbol) :
    table.actionsOn (.stack row) (pad table.length word) =
      (table.lookahead.actionsOn row word).map (carry table.length word) := by
  simp only [actionsOn, length_pad fits, if_true, unpad?_pad]

theorem actionsOn_stack_short {buffer : List BufferSymbol} (short : buffer.length < table.length)
    (row : StackSymbol) : table.actionsOn (.stack row) buffer = [] := by
  rw [actionsOn, if_neg (Nat.ne_of_lt short)]

theorem fits_of_column? {column : Nat} {lookahead : List Terminal}
    (atColumn : table.lookahead.axis.column? column = some lookahead) :
    table.lookahead.axis.contains lookahead = true ∧ lookahead.length ≤ table.length := by
  have held := Axis.mem_columns.mp (List.mem_of_getElem? atColumn)
  exact ⟨held, (Axis.contains_iff.mp held).1⟩

/-! ### Selections -/

/-- Under a full buffer a pushdown row selects what it selects in the lookahead table. -/
theorem select_stack (fits : word.length ≤ table.length) (row : StackSymbol) :
    table.select (.stack row) (pad table.length word) =
      (table.lookahead.select row word).map (carry table.length word) := by
  unfold select LookaheadTable.select
  rw [isSome_index?_pad fits]
  cases table.lookahead.axis.contains word with
  | false => rfl
  | true => simp only [if_true, actionsOn_stack_full fits]

theorem select_inputEnd (short : word.length < table.length)
    (held : table.lookahead.axis.contains word = true) :
    table.select .inputEnd (word.map .terminal) = [.change (pad table.length word)] := by
  have room : (word.map BufferSymbol.terminal).length < table.length := by
    rwa [List.length_map]
  unfold select
  rw [isSome_index?_map short, if_pos held, actionsOn, if_pos room]
  rfl

/-- A short buffer takes in the next terminal if the grammar knows it. -/
theorem select_input (short : word.length < table.length)
    (held : table.lookahead.axis.contains word = true) (terminal : Terminal) :
    table.select (.input terminal) (word.map .terminal) =
      if terminal < table.terminals then [.change ((word ++ [terminal]).map .terminal)] else [] := by
  have room : (word.map BufferSymbol.terminal).length < table.length := by
    rwa [List.length_map]
  unfold select
  rw [isSome_index?_map short, if_pos held, actionsOn, List.map_append, List.map_singleton]
  simp only [room, true_and]

end BufferedTable

end Predictive
