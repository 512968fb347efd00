import Mathlib.Algebra.BigOperators.Intervals
import Mathlib.Data.List.Induction
import Mathlib.Data.List.Shortlex
import Mathlib.Data.Nat.Digits.Defs
import Predictive.Proofs.Table.Column
import Predictive.Table.Odometer

/-!
Contract: an odometer shows the columns of an axis, all of them and each once.

Owns: what one turn does to the number that the wheels show, what is left to be shown at any
turn, the order of the columns, and the place of a string in terms of powers and digits.
Does not own: which of the columns hold actions.

A turn adds 1 to the number modulo all that the wheels can show (`numeral_turn`). So the wheels
show the strings of a length in the order of their numerals, and they are all 0 again behind the
last one only.
-/

namespace Predictive

/-! ### Numerals by their last digit -/

theorem numeral_concat (base : Nat) (front : List Terminal) (last : Terminal) :
    numeral base (front ++ [last]) = numeral base front * base + last := by
  rw [numeral, numeral, List.foldl_append]
  rfl

theorem numeral_eq_ofDigits (base : Nat) (string : List Terminal) :
    numeral base string = Nat.ofDigits base string.reverse := by
  induction string using List.reverseRecOn with
  | nil => rfl
  | append_singleton front last inductionHypothesis =>
      rw [numeral_concat, inductionHypothesis, List.reverse_append, List.reverse_singleton,
        List.singleton_append, Nat.ofDigits_cons, Nat.mul_comm, Nat.add_comm]

theorem numeral_eq_zero_iff {base : Nat} (positive : 0 < base) {string : List Terminal} :
    numeral base string = 0 ↔ ∀ terminal ∈ string, terminal = 0 := by
  induction string using List.reverseRecOn with
  | nil => simp [numeral]
  | append_singleton front last inductionHypothesis =>
      rw [numeral_concat, List.forall_mem_append, List.forall_mem_singleton,
        ← inductionHypothesis, Nat.add_eq_zero_iff, Nat.mul_eq_zero]
      simp [Nat.ne_of_gt positive]

/-! ### One turn -/

namespace Odometer

variable {base : Nat}

theorem turnFrom_behind (base : Nat) (front back : List Terminal) (wheel : Terminal) :
    turnFrom base (front.length + 1) (front ++ wheel :: back) =
      if wheel + 1 < base then front ++ (wheel + 1) :: back
      else turnFrom base front.length (front ++ 0 :: back) := by
  have stepped : (front ++ wheel :: back).modify front.length (· + 1) =
      front ++ (wheel + 1) :: back := by
    rw [List.modify_eq_take_cons_drop (by simp)]
    simp
  simp [turnFrom, stepped]

/-- What stands behind the place is left alone. -/
theorem turnFrom_append (base : Nat) (front back : List Terminal) :
    turnFrom base front.length (front ++ back) = turn base front ++ back := by
  induction front using List.reverseRecOn generalizing back with
  | nil => rfl
  | append_singleton front wheel inductionHypothesis =>
      have whole := turnFrom_behind base front back wheel
      have alone := turnFrom_behind base front [] wheel
      rw [turn, List.length_append, List.length_singleton, List.append_assoc,
        List.singleton_append, whole, alone]
      split
      · simp
      · rw [inductionHypothesis, inductionHypothesis, List.append_assoc]
        rfl

/-- A turn is a step of the last wheel, or its return to 0 and a turn of the others. -/
theorem turn_concat (base : Nat) (front : List Terminal) (wheel : Terminal) :
    turn base (front ++ [wheel]) =
      if wheel + 1 < base then front ++ [wheel + 1] else turn base front ++ [0] := by
  rw [turn, List.length_append, List.length_singleton, turnFrom_behind, turnFrom_append]

theorem length_turn (base : Nat) (wheels : List Terminal) :
    (turn base wheels).length = wheels.length := by
  induction wheels using List.reverseRecOn with
  | nil => rfl
  | append_singleton front wheel inductionHypothesis =>
      rw [turn_concat]
      split <;> simp [inductionHypothesis]

theorem turn_lt {wheels : List Terminal} (positive : 0 < base)
    (below : ∀ wheel ∈ wheels, wheel < base) : ∀ wheel ∈ turn base wheels, wheel < base := by
  induction wheels using List.reverseRecOn with
  | nil => exact below
  | append_singleton front wheel inductionHypothesis =>
      have frontBelow := (List.forall_mem_append.mp below).1
      rw [turn_concat]
      split
      · rename_i steps
        exact List.forall_mem_append.mpr ⟨frontBelow, List.forall_mem_singleton.mpr steps⟩
      · exact List.forall_mem_append.mpr
          ⟨inductionHypothesis frontBelow, List.forall_mem_singleton.mpr positive⟩

/-- A turn adds 1, and goes back to 0 where the wheels can show no more. -/
theorem numeral_turn {wheels : List Terminal} (below : ∀ wheel ∈ wheels, wheel < base) :
    numeral base (turn base wheels) = (numeral base wheels + 1) % base ^ wheels.length := by
  induction wheels using List.reverseRecOn with
  | nil => simp [turn, turnFrom, numeral]
  | append_singleton front wheel inductionHypothesis =>
      have frontBelow := (List.forall_mem_append.mp below).1
      have wheelBelow := List.forall_mem_singleton.mp (List.forall_mem_append.mp below).2
      rw [turn_concat, numeral_concat, List.length_append, List.length_singleton, Nat.pow_succ]
      split
      · rename_i steps
        have stepped : ∀ other ∈ front ++ [wheel + 1], other < base :=
          List.forall_mem_append.mpr ⟨frontBelow, List.forall_mem_singleton.mpr steps⟩
        have shown := numeral_lt stepped
        rw [numeral_concat, List.length_append, List.length_singleton, Nat.pow_succ] at shown
        rw [numeral_concat, Nat.add_assoc, Nat.mod_eq_of_lt shown]
      · rename_i returns
        have last : wheel + 1 = base := Nat.le_antisymm wheelBelow (Nat.le_of_not_lt returns)
        calc numeral base (turn base front ++ [0])
          _ = (numeral base front + 1) % base ^ front.length * base := by
              rw [numeral_concat, inductionHypothesis frontBelow, Nat.add_zero]
          _ = (numeral base front + 1) * base % (base ^ front.length * base) :=
              (Nat.mul_mod_mul_right _ _ _).symm
          _ = (numeral base front * base + wheel + 1) % (base ^ front.length * base) := by
              rw [Nat.succ_mul, Nat.add_assoc, last]

/-! ### What is shown -/

theorem drop_numeral {string : List Terminal} (below : ∀ terminal ∈ string, terminal < base) :
    (stringsOfLength base string.length).drop (numeral base string) =
      string :: (stringsOfLength base string.length).drop (numeral base string + 1) := by
  obtain ⟨inside, found⟩ := List.getElem?_eq_some_iff.mp (getElem?_stringsOfLength below)
  rw [List.drop_eq_getElem_cons inside, found]

/-- By induction on the turns that are left: from any position on, the strings from the one that
the wheels show to the last of the length are added. -/
theorem collect_eq (positive : 0 < base) {turns : Nat} {wheels : List Terminal}
    {shown : List (List Terminal)} (below : ∀ wheel ∈ wheels, wheel < base)
    (enough : base ^ wheels.length ≤ turns + numeral base wheels)
    (fresh : (shown ++ (stringsOfLength base wheels.length).drop (numeral base wheels)).Nodup) :
    collect base turns wheels shown =
      some (shown ++ (stringsOfLength base wheels.length).drop (numeral base wheels)) := by
  have bound := numeral_lt below
  induction turns generalizing wheels shown with
  | zero => omega
  | succ turns inductionHypothesis =>
      have value := numeral_turn below
      have sameLength := length_turn base wheels
      have returned_iff : (turn base wheels).all (· == 0) = true ↔
          numeral base (turn base wheels) = 0 := by
        simp [numeral_eq_zero_iff positive]
      rw [drop_numeral below] at fresh ⊢
      have absent : wheels ∉ shown := fun member =>
        (List.nodup_append.mp fresh).2.2 wheels member wheels List.mem_cons_self rfl
      rw [collect, Discovery.insertNew, if_neg absent]
      by_cases more : numeral base wheels + 1 < base ^ wheels.length
      · rw [Nat.mod_eq_of_lt more] at value
        have onward : ¬(turn base wheels).all (· == 0) = true := by
          rw [returned_iff, value]
          exact Nat.succ_ne_zero _
        have rest := @inductionHypothesis (turn base wheels) (shown ++ [wheels])
          (turn_lt positive below)
        rw [sameLength, value] at rest
        rw [if_neg onward, rest (by omega) (by simpa using fresh) more, List.append_assoc]
        rfl
      · have full : numeral base wheels + 1 = base ^ wheels.length := by omega
        rw [full, Nat.mod_self] at value
        have nothing :
            (stringsOfLength base wheels.length).drop (numeral base wheels + 1) = [] := by
          rw [full, ← length_stringsOfLength, List.drop_length]
        rw [if_pos (returned_iff.mpr value), nothing]

/-- From the position of rest all strings of a length are shown. -/
theorem collect_zeros (positive : 0 < base) {turns length : Nat} {shown : List (List Terminal)}
    (enough : base ^ length ≤ turns) (fresh : (shown ++ stringsOfLength base length).Nodup) :
    collect base turns (List.replicate length 0) shown =
      some (shown ++ stringsOfLength base length) := by
  have zeros : ∀ wheel ∈ List.replicate length 0, wheel = 0 :=
    fun _ member => List.eq_of_mem_replicate member
  have below : ∀ wheel ∈ List.replicate length 0, wheel < base := by
    intro wheel member
    rwa [zeros wheel member]
  have value : numeral base (List.replicate length 0) = 0 :=
    (numeral_eq_zero_iff positive).mpr zeros
  have collected := @collect_eq base positive turns (List.replicate length 0) shown below
  rw [value, List.length_replicate, List.drop_zero] at collected
  exact collected enough fresh

/-- The lengths are gone through in turn, and none of them needs more turns than the last. -/
theorem foldlM_collect (positive : 0 < base) {turns count : Nat} (enough : base ^ count ≤ turns) :
    (List.range count).foldlM (fun shown index =>
        collect base turns (List.replicate (index + 1) 0) shown) [] =
      some ((List.range count).flatMap fun index => stringsOfLength base (index + 1)) := by
  induction count with
  | zero => rfl
  | succ count inductionHypothesis =>
      have fewer : base ^ count ≤ turns :=
        Nat.le_trans (Nat.pow_le_pow_right positive (Nat.le_succ count)) enough
      have fresh := nodup_strings base (count + 1)
      rw [List.range_succ, List.flatMap_append, List.flatMap_singleton] at fresh ⊢
      rw [List.foldlM_append, inductionHypothesis fewer, Option.bind_eq_bind, Option.bind_some,
        List.foldlM_cons, collect_zeros positive enough fresh]
      rfl

end Odometer

/-! ### The order of the columns -/

theorem lex_stringsOfLength (terminals length : Nat) :
    (stringsOfLength terminals length).Pairwise (List.Lex (· < ·)) := by
  induction length with
  | zero => exact List.pairwise_singleton _ _
  | succ length inductionHypothesis =>
      rw [stringsOfLength, List.pairwise_flatMap]
      constructor
      · intro terminal _
        exact List.pairwise_map.mpr (inductionHypothesis.imp List.Lex.cons)
      · refine List.pairwise_lt_range.imp fun less => ?_
        simp only [List.forall_mem_map]
        intro _ _ _ _
        exact List.Lex.rel less

theorem shortlex_strings (terminals length : Nat) :
    ((List.range length).flatMap fun index =>
      stringsOfLength terminals (index + 1)).Pairwise (List.Shortlex (· < ·)) := by
  rw [List.pairwise_flatMap]
  constructor
  · intro index _
    refine (lex_stringsOfLength terminals (index + 1)).imp_of_mem ?_
    intro first second inFirst inSecond less
    have sameLength : first.length = second.length :=
      (mem_stringsOfLength.mp inFirst).1.trans (mem_stringsOfLength.mp inSecond).1.symm
    exact List.Shortlex.of_lex sameLength less
  · refine List.pairwise_lt_range.imp fun less first inFirst second inSecond => ?_
    apply List.Shortlex.of_length_lt
    rw [(mem_stringsOfLength.mp inFirst).1, (mem_stringsOfLength.mp inSecond).1]
    omega

/-! ### Counting -/

theorem stringsUpTo_eq_sum (terminals length : Nat) :
    stringsUpTo terminals length = ∑ power ∈ Finset.Ico 1 (length + 1), terminals ^ power := by
  induction length with
  | zero => rfl
  | succ length inductionHypothesis =>
      rw [stringsUpTo_succ, inductionHypothesis, Finset.sum_Ico_succ_top (Nat.le_add_left 1 length)]

namespace Axis

theorem count_eq_sum (axis : Axis) :
    axis.count = ∑ power ∈ Finset.range (axis.length + 1), axis.terminals ^ power := by
  rw [count, endColumn, stringsUpTo_eq_sum, Finset.range_eq_Ico,
    Finset.sum_eq_sum_Ico_succ_bot (Nat.succ_pos _), Nat.pow_zero, Nat.add_comm]

/-- The place of a string: behind all shorter ones, as far as its digits say. -/
theorem index?_eq_digits {axis : Axis} {lookahead : List Terminal} (nonempty : lookahead ≠ [])
    (held : axis.contains lookahead = true) :
    axis.index? lookahead =
      some ((∑ power ∈ Finset.Ico 1 lookahead.length, axis.terminals ^ power) +
        Nat.ofDigits axis.terminals lookahead.reverse) := by
  cases lookahead with
  | nil => exact absurd rfl nonempty
  | cons terminal rest =>
      rw [index?_cons, if_pos held, stringsUpTo_eq_sum, numeral_eq_ofDigits, List.length_cons]

/-! ### The columns by odometer -/

theorem columnsByOdometer_eq {axis : Axis} {turns : Nat}
    (enough : axis.terminals ^ axis.length ≤ turns) :
    axis.columnsByOdometer turns = some axis.columns := by
  have absent : [] ∉ (List.range axis.length).flatMap fun index =>
      stringsOfLength axis.terminals (index + 1) := by
    intro member
    exact (List.nodup_append.mp axis.nodup_columns).2.2 [] member []
      (List.mem_singleton.mpr rfl) rfl
  unfold columnsByOdometer
  by_cases noTerminal : axis.terminals = 0
  · simp [noTerminal, columns, Discovery.insertNew, stringsOfLength]
  · rw [if_neg noTerminal, Odometer.foldlM_collect (Nat.pos_of_ne_zero noTerminal) enough]
    exact congrArg some (if_neg absent)

/-- What makes a list the columns of an axis: it holds the strings that are not too long, each
once, in their order, the empty one last, and the axis finds them by their places in it. -/
structure HasColumns (axis : Axis) (columns : List (List Terminal)) : Prop where
  /-- Shorter strings come first, those of one length lexicographically. -/
  ordered : ∃ strings, columns = strings ++ [[]] ∧ strings.Pairwise (List.Shortlex (· < ·))
  nodup : columns.Nodup
  mem_iff : ∀ lookahead, lookahead ∈ columns ↔
    lookahead.length ≤ axis.length ∧ ∀ terminal ∈ lookahead, terminal < axis.terminals
  length_eq :
    columns.length = ∑ power ∈ Finset.range (axis.length + 1), axis.terminals ^ power
  endColumn_eq : axis.endColumn = columns.length - 1
  column?_eq : ∀ place, axis.column? place = columns[place]?
  index?_iff : ∀ lookahead place,
    axis.index? lookahead = some place ↔ columns[place]? = some lookahead
  place : ∀ lookahead ∈ columns, lookahead ≠ [] → axis.index? lookahead =
    some ((∑ power ∈ Finset.Ico 1 lookahead.length, axis.terminals ^ power) +
      Nat.ofDigits axis.terminals lookahead.reverse)

theorem hasColumns (axis : Axis) : axis.HasColumns axis.columns where
  ordered := ⟨_, rfl, shortlex_strings axis.terminals axis.length⟩
  nodup := axis.nodup_columns
  mem_iff := fun _ => mem_columns.trans contains_iff
  length_eq := axis.length_columns.trans axis.count_eq_sum
  endColumn_eq := by rw [length_columns, count, Nat.add_sub_cancel]
  column?_eq := fun _ => rfl
  index?_iff := fun _ _ => index?_eq_some_iff
  place := fun _ member nonempty => index?_eq_digits nonempty (mem_columns.mp member)

/-- Given turns enough, the odometer comes to an end and has shown the columns. -/
theorem columnsByOdometer_exact (axis : Axis) : ∃ columns,
    (∃ enough, ∀ turns, enough ≤ turns → axis.columnsByOdometer turns = some columns) ∧
      axis.columns = columns ∧ axis.HasColumns columns :=
  ⟨axis.columns, ⟨_, fun _ enough => columnsByOdometer_eq enough⟩, rfl, axis.hasColumns⟩

/-- One terminal comes round at every turn. Two are the digits of binary numerals. -/
example : (Axis.mk 1 3).columnsByOdometer 1 = some [[0], [0, 0], [0, 0, 0], []] ∧
    (Axis.mk 2 2).columnsByOdometer 4 =
      some [[0], [1], [0, 0], [0, 1], [1, 0], [1, 1], []] := by
  decide

end Axis

end Predictive
