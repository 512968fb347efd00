import Predictive.Lookahead.BoundedString

/-!
Contract: finite sets of terminal strings with one representation each.

Owns: the strictly increasing list behind a set, its construction from any list,
membership, union, and truncated concatenation.
Does not own: which sets a grammar gives rise to.

Two sets with the same members are equal (`LookaheadSet.ext_mem`), so a set can be part of a
state's identity. `mem_concat` says what a concatenation holds.
-/

namespace Predictive

structure LookaheadSet where
  strings : List BoundedString
  increasing : strings.Pairwise BoundedString.Before
deriving DecidableEq, Repr

namespace LookaheadSet

/-- Collapses runs of equal neighbours, the first of them being `head`. -/
def collapseFrom (head : BoundedString) : List BoundedString → List BoundedString
  | [] => [head]
  | next :: rest =>
      if head = next then collapseFrom head rest else head :: collapseFrom next rest

def collapse : List BoundedString → List BoundedString
  | [] => []
  | head :: rest => collapseFrom head rest

theorem mem_collapseFrom (head string : BoundedString) (rest : List BoundedString) :
    string ∈ collapseFrom head rest ↔ string = head ∨ string ∈ rest := by
  induction rest generalizing head with
  | nil => simp [collapseFrom]
  | cons next rest inductionHypothesis =>
      rw [collapseFrom]
      split
      · rename_i same
        subst same
        rw [inductionHypothesis]
        simp
      · simp [inductionHypothesis]

theorem mem_collapse (string : BoundedString) (strings : List BoundedString) :
    string ∈ collapse strings ↔ string ∈ strings := by
  cases strings with
  | nil => simp [collapse]
  | cons head rest => simp [collapse, mem_collapseFrom]

theorem increasing_collapseFrom (head : BoundedString) (rest : List BoundedString)
    (sorted : (head :: rest).Pairwise fun left right => BoundedString.le left right = true) :
    (collapseFrom head rest).Pairwise BoundedString.Before := by
  induction rest generalizing head with
  | nil => simp [collapseFrom]
  | cons next rest inductionHypothesis =>
      obtain ⟨headLe, tailSorted⟩ := List.pairwise_cons.mp sorted
      rw [collapseFrom]
      split
      · rename_i same
        subst same
        exact inductionHypothesis head tailSorted
      · rename_i different
        have headBefore := BoundedString.before_of_le (headLe next (by simp)) different
        refine List.pairwise_cons.mpr ⟨?_, inductionHypothesis next tailSorted⟩
        intro string member
        rcases (mem_collapseFrom next string rest).mp member with rfl | later
        · exact headBefore
        · have nextLe := (List.pairwise_cons.mp tailSorted).1 string later
          by_cases same : next = string
          · exact same ▸ headBefore
          · exact headBefore.trans (BoundedString.before_of_le nextLe same)

theorem increasing_collapse (strings : List BoundedString)
    (sorted : strings.Pairwise fun left right => BoundedString.le left right = true) :
    (collapse strings).Pairwise BoundedString.Before := by
  cases strings with
  | nil => exact List.Pairwise.nil
  | cons head rest => exact increasing_collapseFrom head rest sorted

/-- Whether each string of a list stands before the next. -/
def isIncreasing : List BoundedString → Bool
  | [] => true
  | [_] => true
  | first :: second :: rest =>
      decide (BoundedString.Before first second) && isIncreasing (second :: rest)

theorem increasing_of_isIncreasing (strings : List BoundedString)
    (checked : isIncreasing strings = true) : strings.Pairwise BoundedString.Before := by
  induction strings with
  | nil => exact List.Pairwise.nil
  | cons first rest inductionHypothesis =>
      cases rest with
      | nil => exact List.pairwise_singleton _ _
      | cons second rest =>
          rw [isIncreasing, Bool.and_eq_true, decide_eq_true_eq] at checked
          have tail := inductionHypothesis checked.2
          refine List.pairwise_cons.mpr ⟨?_, tail⟩
          intro string member
          rcases List.mem_cons.mp member with rfl | later
          · exact checked.1
          · exact checked.1.trans ((List.pairwise_cons.mp tail).1 string later)

/-- The set of a list's members. A list that is increasing already is taken as it is. -/
def ofList (strings : List BoundedString) : LookaheadSet :=
  if checked : isIncreasing strings = true then
    ⟨strings, increasing_of_isIncreasing strings checked⟩
  else
    ⟨collapse (strings.mergeSort BoundedString.le),
      increasing_collapse _
        (List.pairwise_mergeSort BoundedString.le_trans BoundedString.le_total strings)⟩

private theorem le_of_increasing {strings : List BoundedString}
    (increasing : strings.Pairwise BoundedString.Before) :
    strings.Pairwise fun left right => BoundedString.le left right = true :=
  increasing.imp BoundedString.le_of_before

/-- The members that pass a test. -/
def filter (test : BoundedString → Bool) (set : LookaheadSet) : LookaheadSet :=
  ⟨set.strings.filter test, set.increasing.filter test⟩

/-- The members of either set. -/
def union (left right : LookaheadSet) : LookaheadSet :=
  ⟨collapse (left.strings.merge right.strings BoundedString.le),
    increasing_collapse _
      (List.pairwise_merge BoundedString.le_trans BoundedString.le_total _ _
        (le_of_increasing left.increasing) (le_of_increasing right.increasing))⟩

/-- The set of the words' beginnings of at most `limit` terminals. -/
def ofWords (limit : Nat) (words : List (List Terminal)) : LookaheadSet :=
  ofList (words.map (BoundedString.cut limit))

def empty : LookaheadSet := ⟨[], List.Pairwise.nil⟩

/-- The set of the empty string: nothing follows but the end of the input. -/
def endOfInput (limit : Nat) : LookaheadSet :=
  ⟨[BoundedString.empty limit], List.pairwise_singleton _ _⟩

instance : Membership BoundedString LookaheadSet where
  mem set string := string ∈ set.strings

instance (string : BoundedString) (set : LookaheadSet) : Decidable (string ∈ set) :=
  inferInstanceAs (Decidable (string ∈ set.strings))

def size (set : LookaheadSet) : Nat := set.strings.length

/-- The terminals of each string, in the order of the set. -/
def words (set : LookaheadSet) : List (List Terminal) := set.strings.map BoundedString.terminals

@[simp]
theorem mem_strings (string : BoundedString) (set : LookaheadSet) :
    string ∈ set.strings ↔ string ∈ set :=
  Iff.rfl

@[simp]
theorem mem_ofList (string : BoundedString) (strings : List BoundedString) :
    string ∈ ofList strings ↔ string ∈ strings := by
  rw [← mem_strings, ofList]
  split
  · rfl
  · rw [mem_collapse, List.mem_mergeSort]

@[simp]
theorem mem_filter (string : BoundedString) (test : BoundedString → Bool)
    (set : LookaheadSet) : string ∈ set.filter test ↔ string ∈ set ∧ test string = true :=
  List.mem_filter

@[simp]
theorem mem_union (string : BoundedString) (left right : LookaheadSet) :
    string ∈ union left right ↔ string ∈ left ∨ string ∈ right := by
  rw [← mem_strings]
  show string ∈ collapse (left.strings.merge right.strings BoundedString.le) ↔ _
  rw [mem_collapse, List.mem_merge]
  rfl

private theorem strings_eq_of_mem {left right : List BoundedString}
    (leftIncreasing : left.Pairwise BoundedString.Before)
    (rightIncreasing : right.Pairwise BoundedString.Before)
    (same : ∀ string, string ∈ left ↔ string ∈ right) : left = right := by
  induction left generalizing right with
  | nil =>
      cases right with
      | nil => rfl
      | cons head tail => exact absurd ((same head).mpr (by simp)) (by simp)
  | cons leftHead leftTail inductionHypothesis =>
      cases right with
      | nil => exact absurd ((same leftHead).mp (by simp)) (by simp)
      | cons rightHead rightTail =>
          obtain ⟨leftFirst, leftRest⟩ := List.pairwise_cons.mp leftIncreasing
          obtain ⟨rightFirst, rightRest⟩ := List.pairwise_cons.mp rightIncreasing
          have heads : leftHead = rightHead := by
            rcases List.mem_cons.mp ((same leftHead).mp (by simp)) with equal | inRight
            · exact equal
            · rcases List.mem_cons.mp ((same rightHead).mpr (by simp)) with equal | inLeft
              · exact equal.symm
              · exact absurd ((leftFirst _ inLeft).trans (rightFirst _ inRight))
                  (BoundedString.not_before_self _)
          subst heads
          have tails : leftTail = rightTail := by
            refine inductionHypothesis leftRest rightRest ?_
            intro string
            constructor
            · intro member
              rcases List.mem_cons.mp ((same string).mp (by simp [member])) with rfl | inRight
              · exact absurd (leftFirst _ member) (BoundedString.not_before_self _)
              · exact inRight
            · intro member
              rcases List.mem_cons.mp ((same string).mpr (by simp [member])) with rfl | inLeft
              · exact absurd (rightFirst _ member) (BoundedString.not_before_self _)
              · exact inLeft
          rw [tails]

/-- Sets with the same members are equal. -/
theorem ext_mem {left right : LookaheadSet}
    (same : ∀ string, string ∈ left ↔ string ∈ right) : left = right := by
  have equal := strings_eq_of_mem left.increasing right.increasing same
  cases left
  cases right
  simp_all

theorem not_mem_empty (string : BoundedString) : string ∉ empty := List.not_mem_nil

@[simp]
theorem union_empty (set : LookaheadSet) : set.union empty = set := by
  apply ext_mem
  intro string
  rw [mem_union]
  exact or_iff_left (not_mem_empty string)

@[simp]
theorem empty_union (set : LookaheadSet) : empty.union set = set := by
  apply ext_mem
  intro string
  rw [mem_union]
  exact or_iff_right (not_mem_empty string)

theorem union_assoc (first second third : LookaheadSet) :
    (first.union second).union third = first.union (second.union third) := by
  apply ext_mem
  intro string
  rw [mem_union, mem_union, mem_union, mem_union, or_assoc]

/-- Every string of the first set followed by every string of the second, cut to `limit`.
A string that fills the limit alone is taken once, whatever follows it. -/
def concat (limit : Nat) (left right : LookaheadSet) : LookaheadSet :=
  match right.strings with
  | [] => empty
  | _ :: _ => ofList (left.strings.flatMap fun first =>
      if limit ≤ first.terminals.length then [BoundedString.cut limit first.terminals]
      else right.strings.map fun second =>
        BoundedString.cut limit (first.terminals ++ second.terminals))

private theorem cut_append_of_le {limit : Nat} {first second : List Terminal}
    (full : limit ≤ first.length) :
    BoundedString.cut limit (first ++ second) = BoundedString.cut limit first := by
  refine BoundedString.ext ?_ rfl
  show (first ++ second).take limit = first.take limit
  rw [List.take_append_of_le_length full]

theorem mem_concat (limit : Nat) (left right : LookaheadSet) (string : BoundedString) :
    string ∈ concat limit left right ↔
      ∃ first ∈ left, ∃ second ∈ right,
        string = BoundedString.cut limit (first.terminals ++ second.terminals) := by
  unfold concat
  split
  · rename_i nothing
    constructor
    · intro member
      exact absurd member (List.not_mem_nil)
    · rintro ⟨_, _, second, secondMember, _⟩
      rw [← mem_strings, nothing] at secondMember
      exact absurd secondMember (List.not_mem_nil)
  · rename_i head tail something
    rw [mem_ofList, List.mem_flatMap]
    constructor
    · rintro ⟨first, firstMember, member⟩
      refine ⟨first, firstMember, ?_⟩
      split at member
      · rename_i full
        refine ⟨head, ?_, ?_⟩
        · rw [← mem_strings, something]
          exact List.mem_cons_self
        · rw [cut_append_of_le full]
          exact List.mem_singleton.mp member
      · obtain ⟨second, secondMember, equal⟩ := List.mem_map.mp member
        exact ⟨second, secondMember, equal.symm⟩
    · rintro ⟨first, firstMember, second, secondMember, equal⟩
      refine ⟨first, firstMember, ?_⟩
      split
      · rename_i full
        rw [equal, cut_append_of_le full]
        exact List.mem_singleton.mpr rfl
      · exact List.mem_map.mpr ⟨second, secondMember, equal.symm⟩

end LookaheadSet

end Predictive
