import Predictive.Lookahead.Joining
import Predictive.Proofs.Lookahead.First

/-!
Contract: truncated concatenation by pushes is the one by cutting, and a monoid.

Owns: what pushes make of a string, associativity and the neutral string of `BoundedString.join`,
and the same laws for sets.
Does not own: which sets a grammar gives rise to.

A set is concatenated string by string, so every law of sets is a law of strings, read through
membership. The law of strings that counts is that of `cut`: whether the middle string is cut
with what stands before it or with what stands behind it, all is lost that does not fit.
-/

namespace Predictive

namespace BoundedString

/-! ### Pushes -/

theorem cut_self (string : BoundedString) : cut string.limit string.terminals = string :=
  ext (List.take_of_length_le string.length_le) rfl

/-- A push leaves what the string comes to with all that is still to come; where it is refused,
that is the string itself. -/
theorem push?_cases (string : BoundedString) (terminal : Terminal) :
    (∃ longer, string.push? terminal = some longer ∧
      ∀ behind, cut longer.limit (longer.terminals ++ behind) =
        cut string.limit (string.terminals ++ terminal :: behind)) ∨
    (string.push? terminal = none ∧
      ∀ behind, cut string.limit (string.terminals ++ behind) = string) := by
  by_cases fits : string.terminals.length < string.limit
  · left
    obtain ⟨longer, pushed, terminals, limit⟩ := exists_push? (Nat.sub_pos_of_lt fits) terminal
    refine ⟨longer, pushed, ?_⟩
    intro behind
    rw [terminals, limit, List.append_assoc, List.singleton_append]
  · right
    refine ⟨dif_neg fits, ?_⟩
    intro behind
    have full : string.limit ≤ string.terminals.length := Nat.le_of_not_lt fits
    have absorbed : (string.terminals ++ behind).take string.limit = string.terminals := by
      rw [List.take_append_of_le_length full]
      exact List.take_of_length_le string.length_le
    exact ext absorbed rfl

theorem pushUntilFull_eq (string : BoundedString) (terminals : List Terminal) :
    string.pushUntilFull terminals = cut string.limit (string.terminals ++ terminals) := by
  induction terminals generalizing string with
  | nil =>
      rw [pushUntilFull, List.append_nil]
      exact string.cut_self.symm
  | cons terminal rest inductionHypothesis =>
      rw [pushUntilFull]
      rcases string.push?_cases terminal with ⟨longer, pushed, onward⟩ | ⟨refused, absorbed⟩
      · rw [pushed]
        exact (inductionHypothesis longer).trans (onward rest)
      · rw [refused]
        exact (absorbed _).symm

theorem pushEach_cons (string : BoundedString) (terminal : Terminal) (rest : List Terminal) :
    string.pushEach (terminal :: rest) = ((string.push? terminal).getD string).pushEach rest :=
  rfl

/-- Pushes behind one that is refused are refused too. -/
theorem pushEach_eq (string : BoundedString) (terminals : List Terminal) :
    string.pushEach terminals = cut string.limit (string.terminals ++ terminals) := by
  induction terminals generalizing string with
  | nil =>
      rw [List.append_nil]
      exact string.cut_self.symm
  | cons terminal rest inductionHypothesis =>
      rw [pushEach_cons, inductionHypothesis]
      rcases string.push?_cases terminal with ⟨longer, pushed, onward⟩ | ⟨refused, absorbed⟩
      · rw [pushed]
        exact onward rest
      · rw [refused, Option.getD_none, absorbed, absorbed]

/-! ### Two strings in a row -/

theorem take_append_take_left (limit : Nat) (word behind : List Terminal) :
    (word.take limit ++ behind).take limit = (word ++ behind).take limit := by
  have sameRoom : limit - (word.take limit).length = limit - word.length := by
    rw [List.length_take]
    omega
  rw [List.take_append, List.take_append, sameRoom, List.take_take, Nat.min_self]

theorem take_append_take_right (limit : Nat) (word behind : List Terminal) :
    (word ++ behind.take limit).take limit = (word ++ behind).take limit := by
  have smaller : limit - word.length ≤ limit := Nat.sub_le limit word.length
  rw [List.take_append, List.take_append, List.take_take, Nat.min_eq_left smaller]

theorem join_eq (limit : Nat) (first second : BoundedString) :
    join limit first second = cut limit (first.terminals ++ second.terminals) :=
  pushUntilFull_eq (empty limit) (first.terminals ++ second.terminals)

/-- Both ways, the first terminals of the three strings in a row are left. -/
theorem join_assoc (limit : Nat) (first second third : BoundedString) :
    join limit (join limit first second) third = join limit first (join limit second third) := by
  rw [join_eq, join_eq, join_eq, join_eq]
  refine ext ?_ rfl
  calc ((first.terminals ++ second.terminals).take limit ++ third.terminals).take limit
      = (first.terminals ++ second.terminals ++ third.terminals).take limit :=
        take_append_take_left limit _ _
    _ = (first.terminals ++ (second.terminals ++ third.terminals)).take limit := by
        rw [List.append_assoc]
    _ = (first.terminals ++ (second.terminals ++ third.terminals).take limit).take limit :=
        (take_append_take_right limit _ _).symm

theorem empty_join (string : BoundedString) :
    join string.limit (empty string.limit) string = string := by
  rw [join_eq]
  exact string.cut_self

theorem join_empty (string : BoundedString) :
    join string.limit string (empty string.limit) = string := by
  have nothingBehind : string.terminals ++ (empty string.limit).terminals = string.terminals :=
    List.append_nil _
  rw [join_eq, nothingBehind]
  exact string.cut_self

end BoundedString

namespace LookaheadSet

variable {limit : Nat}

/-! ### The loop over all pairs -/

theorem mem_insert (set : LookaheadSet) (string other : BoundedString) :
    other ∈ set.insert string ↔ other = string ∨ other ∈ set :=
  mem_insertInto string other set.strings

/-- A loop adds to a set what its steps add. -/
theorem mem_foldl {Item : Type} {step : LookaheadSet → Item → LookaheadSet}
    {Adds : Item → BoundedString → Prop}
    (each : ∀ set item string, string ∈ step set item ↔ Adds item string ∨ string ∈ set)
    (items : List Item) (set : LookaheadSet) (string : BoundedString) :
    string ∈ items.foldl step set ↔ (∃ item ∈ items, Adds item string) ∨ string ∈ set := by
  induction items generalizing set with
  | nil => simp
  | cons item rest inductionHypothesis =>
      rw [List.foldl_cons, inductionHypothesis, each]
      simp only [List.mem_cons, exists_eq_or_imp, or_assoc]
      exact or_left_comm

theorem mem_join {left right : LookaheadSet} {string : BoundedString} :
    string ∈ join limit left right ↔
      ∃ first ∈ left, ∃ second ∈ right, string = BoundedString.join limit first second := by
  have inner (result : LookaheadSet) (first other : BoundedString) :
      other ∈ right.strings.foldl (fun result second =>
          result.insert (BoundedString.join limit first second)) result ↔
        (∃ second ∈ right, other = BoundedString.join limit first second) ∨ other ∈ result :=
    mem_foldl (fun set second => mem_insert set (BoundedString.join limit first second)) _ _ _
  rw [join, mem_foldl inner]
  exact or_iff_left (not_mem_empty string)

theorem join_mem {left right : LookaheadSet} {first second : BoundedString}
    (inLeft : first ∈ left) (inRight : second ∈ right) :
    BoundedString.join limit first second ∈ join limit left right :=
  mem_join.mpr ⟨first, inLeft, second, inRight, rfl⟩

/-- Sorting all strings at the end gives the set that insertion gives. -/
theorem join_eq_concat (limit : Nat) (left right : LookaheadSet) :
    join limit left right = concat limit left right := by
  apply ext_mem
  intro string
  rw [mem_join, mem_concat]
  simp only [BoundedString.join_eq]

/-! ### The monoid -/

theorem join_assoc (limit : Nat) (first second third : LookaheadSet) :
    join limit (join limit first second) third = join limit first (join limit second third) := by
  apply ext_mem
  intro string
  constructor
  · intro member
    obtain ⟨front, inFront, back, inThird, rfl⟩ := mem_join.mp member
    obtain ⟨start, inFirst, middle, inSecond, rfl⟩ := mem_join.mp inFront
    rw [BoundedString.join_assoc]
    exact join_mem inFirst (join_mem inSecond inThird)
  · intro member
    obtain ⟨start, inFirst, rear, inRear, rfl⟩ := mem_join.mp member
    obtain ⟨middle, inSecond, back, inThird, rfl⟩ := mem_join.mp inRear
    rw [← BoundedString.join_assoc]
    exact join_mem (join_mem inFirst inSecond) inThird

theorem mem_endOfInput {string : BoundedString} :
    string ∈ endOfInput limit ↔ string = BoundedString.empty limit :=
  List.mem_singleton

theorem exists_mem_eq_iff {set : LookaheadSet} {act : BoundedString → BoundedString}
    (kept : ∀ string ∈ set, act string = string) (string : BoundedString) :
    (∃ other ∈ set, string = act other) ↔ string ∈ set := by
  constructor
  · rintro ⟨other, inSet, rfl⟩
    rw [kept other inSet]
    exact inSet
  · intro inSet
    exact ⟨string, inSet, (kept string inSet).symm⟩

theorem endOfInput_join {set : LookaheadSet} (limited : ∀ string ∈ set, string.limit = limit) :
    join limit (endOfInput limit) set = set := by
  have kept : ∀ string ∈ set,
      BoundedString.join limit (BoundedString.empty limit) string = string :=
    fun string inSet => limited string inSet ▸ string.empty_join
  apply ext_mem
  intro string
  simp only [mem_join, mem_endOfInput, exists_eq_left]
  exact exists_mem_eq_iff kept string

theorem join_endOfInput {set : LookaheadSet} (limited : ∀ string ∈ set, string.limit = limit) :
    join limit set (endOfInput limit) = set := by
  have kept : ∀ string ∈ set,
      BoundedString.join limit string (BoundedString.empty limit) = string :=
    fun string inSet => limited string inSet ▸ string.join_empty
  apply ext_mem
  intro string
  simp only [mem_join, mem_endOfInput, exists_eq_left]
  exact exists_mem_eq_iff kept string

/-- What makes an operation truncated concatenation, and with a neutral set a monoid on the sets
of one limit. What is concatenated may have any limits, and still it associates. -/
structure IsTruncatedMonoid (limit : Nat) (operation : LookaheadSet → LookaheadSet → LookaheadSet)
    (neutral : LookaheadSet) : Prop where
  mem_iff : ∀ left right string, string ∈ operation left right ↔
    ∃ first ∈ left, ∃ second ∈ right,
      string = BoundedString.cut limit (first.terminals ++ second.terminals)
  limited : ∀ left right, ∀ string ∈ operation left right, string.limit = limit
  limited_neutral : ∀ string ∈ neutral, string.limit = limit
  assoc : ∀ first second third,
    operation (operation first second) third = operation first (operation second third)
  neutral_left : ∀ set, (∀ string ∈ set, string.limit = limit) → operation neutral set = set
  neutral_right : ∀ set, (∀ string ∈ set, string.limit = limit) → operation set neutral = set

theorem isTruncatedMonoid_join (limit : Nat) :
    IsTruncatedMonoid limit (join limit) (endOfInput limit) where
  mem_iff := by
    intro left right string
    rw [join_eq_concat, mem_concat]
  limited := by
    intro left right string member
    obtain ⟨first, _, second, _, rfl⟩ := mem_join.mp member
    rw [BoundedString.join_eq]
    rfl
  limited_neutral := by
    intro string member
    rw [mem_endOfInput.mp member]
    rfl
  assoc := join_assoc limit
  neutral_left _ limited := endOfInput_join limited
  neutral_right _ limited := join_endOfInput limited

/-- Truncated concatenation by pushes is the one that lookaheads are computed with, and a monoid
whose neutral set is the end of the input. A string takes pushes up to its limit, whatever it was
made of. -/
theorem join_exact (limit : Nat) :
    (∀ left right, join limit left right = concat limit left right) ∧
      IsTruncatedMonoid limit (join limit) (endOfInput limit) ∧
      ∀ (string : BoundedString) (pushed : List Terminal),
        string.pushEach pushed = BoundedString.cut string.limit (string.terminals ++ pushed) :=
  ⟨join_eq_concat limit, isTruncatedMonoid_join limit, BoundedString.pushEach_eq⟩

/-- Four pairs of strings, and one string of them all. -/
example : join 2 (ofWords 2 [[0], [0, 1]]) (ofWords 3 [[1, 2], [1, 3, 4]]) =
    ofWords 2 [[0, 1]] := by
  decide

end LookaheadSet

end Predictive
