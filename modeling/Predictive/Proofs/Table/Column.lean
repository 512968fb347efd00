import Mathlib.Data.List.Nodup
import Mathlib.Tactic.Ring
import Predictive.Table.Column

/-!
Contract: the columns of an axis are the lookaheads that it contains.

Owns: membership in the columns, their number and their differing, and the place of a
lookahead among them.
Does not own: what is held in a column.

Strings of one length come in blocks by their first terminal, the columns in blocks by their
length. So the place of a string in its block is its numeral, and the blocks in front of it
hold as many strings as there are shorter ones.
-/

namespace Predictive

theorem mem_stringsOfLength {terminals length : Nat} {string : List Terminal} :
    string ∈ stringsOfLength terminals length ↔
      string.length = length ∧ ∀ terminal ∈ string, terminal < terminals := by
  induction length generalizing string with
  | zero =>
      rw [stringsOfLength, List.mem_singleton, List.length_eq_zero_iff]
      constructor
      · rintro rfl
        exact ⟨rfl, by simp⟩
      · exact And.left
  | succ length inductionHypothesis =>
      simp only [stringsOfLength, List.mem_flatMap, List.mem_range, List.mem_map]
      constructor
      · rintro ⟨terminal, bound, rest, member, rfl⟩
        obtain ⟨sameLength, below⟩ := inductionHypothesis.mp member
        refine ⟨by rw [List.length_cons, sameLength], ?_⟩
        intro other inString
        rcases List.mem_cons.mp inString with rfl | later
        · exact bound
        · exact below other later
      · rintro ⟨sameLength, below⟩
        cases string with
        | nil => exact absurd sameLength (by simp)
        | cons terminal rest =>
            refine ⟨terminal, below terminal (by simp), rest, inductionHypothesis.mpr ⟨?_, ?_⟩, rfl⟩
            · exact Nat.succ.inj sameLength
            · exact fun other member => below other (by simp [member])

theorem length_stringsOfLength (terminals length : Nat) :
    (stringsOfLength terminals length).length = terminals ^ length := by
  induction length with
  | zero => rfl
  | succ length inductionHypothesis =>
      simp only [stringsOfLength, List.length_flatMap, List.length_map, inductionHypothesis,
        List.map_const', List.length_range, List.sum_replicate_nat, Nat.pow_succ']

theorem stringsUpTo_succ (terminals length : Nat) :
    stringsUpTo terminals (length + 1) =
      stringsUpTo terminals length + terminals ^ (length + 1) := by
  induction length with
  | zero => simp [stringsUpTo]
  | succ length inductionHypothesis =>
      calc stringsUpTo terminals (length + 1 + 1)
        _ = terminals * (stringsUpTo terminals (length + 1) + 1) := rfl
        _ = terminals * (stringsUpTo terminals length + 1) + terminals ^ (length + 1 + 1) := by
            rw [inductionHypothesis]
            ring
        _ = stringsUpTo terminals (length + 1) + terminals ^ (length + 1 + 1) := rfl

/-! ### Numerals -/

theorem numeral_cons (base : Nat) (terminal : Terminal) (rest : List Terminal) :
    numeral base (terminal :: rest) = terminal * base ^ rest.length + numeral base rest := by
  have shifted : ∀ (string : List Terminal) (value : Nat),
      string.foldl (fun value terminal => value * base + terminal) value =
        value * base ^ string.length + numeral base string := by
    intro string
    induction string with
    | nil => simp [numeral]
    | cons head tail inductionHypothesis =>
        intro value
        rw [numeral, List.foldl_cons, List.foldl_cons, inductionHypothesis,
          inductionHypothesis (0 * base + head), List.length_cons]
        ring
  rw [numeral, List.foldl_cons, shifted]
  simp

theorem numeral_lt {base : Nat} {string : List Terminal}
    (below : ∀ terminal ∈ string, terminal < base) :
    numeral base string < base ^ string.length := by
  induction string with
  | nil => simp [numeral]
  | cons terminal rest inductionHypothesis =>
      have restLt := inductionHypothesis fun other member => below other (by simp [member])
      rw [numeral_cons, List.length_cons, Nat.pow_succ']
      calc
        terminal * base ^ rest.length + numeral base rest
          < terminal * base ^ rest.length + base ^ rest.length := Nat.add_lt_add_left restLt _
        _ = (terminal + 1) * base ^ rest.length := (Nat.succ_mul terminal _).symm
        _ ≤ base * base ^ rest.length :=
            Nat.mul_le_mul_right _ (below terminal List.mem_cons_self)

/-! ### Blocks -/

/-- Blocks of one size: an item is found behind all items of the blocks in front. -/
theorem getElem?_blocks {Item : Type} {block : Nat → List Item} {size : Nat}
    (sized : ∀ index, (block index).length = size) {count index place : Nat}
    (inCount : index < count) (inBlock : place < size) :
    ((List.range count).flatMap block)[index * size + place]? = (block index)[place]? := by
  have total : ∀ count, ((List.range count).flatMap block).length = count * size := by
    intro count
    simp [List.length_flatMap, sized]
  induction count with
  | zero => exact absurd inCount (Nat.not_lt_zero _)
  | succ count inductionHypothesis =>
      rw [List.range_succ, List.flatMap_append, List.flatMap_singleton]
      rcases Nat.lt_succ_iff_lt_or_eq.mp inCount with earlier | rfl
      · have within : (index + 1) * size ≤ count * size := Nat.mul_le_mul_right _ earlier
        rw [Nat.succ_mul] at within
        rw [List.getElem?_append_left (by rw [total]; omega), inductionHypothesis earlier]
      · rw [List.getElem?_append_right (by rw [total]; omega), total, Nat.add_sub_cancel_left]

theorem getElem?_stringsOfLength {terminals : Nat} {string : List Terminal}
    (below : ∀ terminal ∈ string, terminal < terminals) :
    (stringsOfLength terminals string.length)[numeral terminals string]? = some string := by
  induction string with
  | nil => rfl
  | cons terminal rest inductionHypothesis =>
      have restBelow : ∀ other ∈ rest, other < terminals :=
        fun other member => below other (List.mem_cons_of_mem _ member)
      have sized : ∀ head, ((stringsOfLength terminals rest.length).map (head :: ·)).length =
          terminals ^ rest.length := by
        intro head
        rw [List.length_map, length_stringsOfLength]
      rw [List.length_cons, stringsOfLength, numeral_cons,
        getElem?_blocks sized (below terminal List.mem_cons_self) (numeral_lt restBelow),
        List.getElem?_map, inductionHypothesis restBelow, Option.map_some]

theorem nodup_stringsOfLength (terminals length : Nat) :
    (stringsOfLength terminals length).Nodup := by
  induction length with
  | zero => exact List.nodup_singleton []
  | succ length inductionHypothesis =>
      refine List.nodup_flatMap.mpr ⟨fun terminal _ => ?_, ?_⟩
      · exact inductionHypothesis.map fun _ _ same => (List.cons.inj same).2
      · refine List.nodup_range.imp fun different => ?_
        intro string inFirst inSecond
        obtain ⟨_, _, rfl⟩ := List.mem_map.mp inFirst
        obtain ⟨_, _, same⟩ := List.mem_map.mp inSecond
        exact different (List.cons.inj same).1.symm

/-- All strings of length 1 to `length`, as the columns list them. -/
theorem length_strings (terminals length : Nat) :
    ((List.range length).flatMap fun index => stringsOfLength terminals (index + 1)).length =
      stringsUpTo terminals length := by
  induction length with
  | zero => rfl
  | succ length inductionHypothesis =>
      rw [List.range_succ, List.flatMap_append, List.length_append, inductionHypothesis,
        List.flatMap_singleton, length_stringsOfLength, stringsUpTo_succ]

/-- A string is found behind all shorter ones. -/
theorem getElem?_strings {terminals length : Nat} {terminal : Terminal} {rest : List Terminal}
    (fits : rest.length < length) (below : ∀ other ∈ terminal :: rest, other < terminals) :
    ((List.range length).flatMap fun index => stringsOfLength terminals (index + 1))[
        stringsUpTo terminals rest.length + numeral terminals (terminal :: rest)]? =
      some (terminal :: rest) := by
  have inBlock : numeral terminals (terminal :: rest) <
      (stringsOfLength terminals (rest.length + 1)).length := by
    rw [length_stringsOfLength]
    exact numeral_lt below
  induction length with
  | zero => exact absurd fits (Nat.not_lt_zero _)
  | succ length inductionHypothesis =>
      rw [List.range_succ, List.flatMap_append, List.flatMap_singleton]
      rcases Nat.lt_succ_iff_lt_or_eq.mp fits with earlier | rfl
      · have found := inductionHypothesis earlier
        rwa [List.getElem?_append_left (List.getElem?_eq_some_iff.mp found).1]
      · rw [List.getElem?_append_right (by rw [length_strings]; omega), length_strings,
          Nat.add_sub_cancel_left]
        exact getElem?_stringsOfLength below

theorem nodup_strings (terminals length : Nat) :
    ((List.range length).flatMap fun index => stringsOfLength terminals (index + 1)).Nodup := by
  refine List.nodup_flatMap.mpr ⟨fun index _ => nodup_stringsOfLength terminals _, ?_⟩
  refine List.nodup_range.imp fun different => ?_
  intro string inFirst inSecond
  have lengths := (mem_stringsOfLength.mp inFirst).1.symm.trans (mem_stringsOfLength.mp inSecond).1
  exact different (Nat.succ.inj lengths)

namespace Axis

theorem contains_iff {axis : Axis} {lookahead : List Terminal} :
    axis.contains lookahead = true ↔
      lookahead.length ≤ axis.length ∧ ∀ terminal ∈ lookahead, terminal < axis.terminals := by
  simp [contains]

theorem contains_of_cons {axis : Axis} {terminal : Terminal} {lookahead : List Terminal}
    (held : axis.contains (terminal :: lookahead) = true) : axis.contains lookahead = true := by
  rw [contains_iff] at held ⊢
  exact ⟨Nat.le_of_succ_le held.1, fun other member => held.2 other (List.mem_cons_of_mem _ member)⟩

theorem mem_columns {axis : Axis} {lookahead : List Terminal} :
    lookahead ∈ axis.columns ↔ axis.contains lookahead = true := by
  rw [contains_iff]
  simp only [columns, List.mem_append, List.mem_flatMap, List.mem_range, mem_stringsOfLength,
    List.mem_singleton]
  constructor
  · rintro (⟨index, bound, sameLength, below⟩ | rfl)
    · exact ⟨by omega, below⟩
    · exact ⟨Nat.zero_le _, by simp⟩
  · rintro ⟨short, below⟩
    cases lookahead with
    | nil => exact .inr rfl
    | cons terminal rest => exact .inl ⟨rest.length, short, rfl, below⟩

theorem length_columns (axis : Axis) : axis.columns.length = axis.count := by
  rw [columns, List.length_append, length_strings]
  rfl

theorem nodup_columns (axis : Axis) : axis.columns.Nodup := by
  refine List.nodup_append.mpr ⟨nodup_strings _ _, List.nodup_singleton [], ?_⟩
  intro string inStrings other isEnd same
  obtain ⟨index, _, inBlock⟩ := List.mem_flatMap.mp inStrings
  rw [same, List.mem_singleton.mp isEnd] at inBlock
  exact absurd (mem_stringsOfLength.mp inBlock).1 (by simp)

theorem isSome_index? {axis : Axis} {lookahead : List Terminal} :
    (axis.index? lookahead).isSome = axis.contains lookahead := by
  cases lookahead with
  | nil => simp [index?, contains]
  | cons terminal rest =>
      unfold index?
      cases axis.contains (terminal :: rest) <;> simp

theorem index?_cons {axis : Axis} {terminal : Terminal} {rest : List Terminal} :
    axis.index? (terminal :: rest) =
      if axis.contains (terminal :: rest) then
        some (stringsUpTo axis.terminals rest.length + numeral axis.terminals (terminal :: rest))
      else none :=
  rfl

theorem column?_of_index? {axis : Axis} {lookahead : List Terminal} {place : Nat}
    (placed : axis.index? lookahead = some place) : axis.column? place = some lookahead := by
  unfold column? columns
  cases lookahead with
  | nil =>
      cases placed
      rw [List.getElem?_append_right (by rw [length_strings]; rfl), length_strings]
      simp [endColumn]
  | cons terminal rest =>
      rw [index?_cons] at placed
      split at placed
      · rename_i held
        cases placed
        obtain ⟨fits, below⟩ := contains_iff.mp held
        have found := getElem?_strings fits below
        rwa [List.getElem?_append_left (List.getElem?_eq_some_iff.mp found).1]
      · exact absurd placed (by simp)

/-- A lookahead has a place exactly where it stands among the columns. -/
theorem index?_eq_some_iff {axis : Axis} {lookahead : List Terminal} {place : Nat} :
    axis.index? lookahead = some place ↔ axis.column? place = some lookahead := by
  refine ⟨column?_of_index?, fun found => ?_⟩
  have held := mem_columns.mp (List.mem_of_getElem? found)
  rw [← isSome_index?] at held
  obtain ⟨other, placed⟩ := Option.isSome_iff_exists.mp held
  have same : axis.columns[other]? = axis.columns[place]? :=
    (column?_of_index? placed).trans found.symm
  have inside := (List.getElem?_eq_some_iff.mp (column?_of_index? placed)).1
  rw [placed, (List.getElem?_inj inside axis.nodup_columns).mp same]

end Axis

end Predictive
