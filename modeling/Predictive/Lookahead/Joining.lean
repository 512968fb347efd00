import Predictive.Lookahead.LookaheadSet

/-!
Contract: truncated concatenation one pair and one terminal at a time.

Owns: sequences of pushes, a string joined to another by pushes, the insertion into a set, and
the loop over all pairs.
Does not own: the concatenation that lookaheads are computed with. There a string that is full
alone is taken once, whatever follows it, and all are sorted together; the two ways agree.
-/

namespace Predictive

namespace BoundedString

/-- Pushes every terminal, also those behind one that does not fit. -/
def pushEach (string : BoundedString) (terminals : List Terminal) : BoundedString :=
  terminals.foldl (fun string terminal => (string.push? terminal).getD string) string

/-- Pushes terminals up to the first that does not fit. -/
def pushUntilFull (string : BoundedString) : List Terminal → BoundedString
  | [] => string
  | terminal :: rest =>
      match string.push? terminal with
      | some longer => longer.pushUntilFull rest
      | none => string

/-- As much of two strings in a row as fits. -/
def join (limit : Nat) (first second : BoundedString) : BoundedString :=
  (empty limit).pushUntilFull (first.terminals ++ second.terminals)

end BoundedString

namespace LookaheadSet

/-- Inserts a string in front of the first that it stands before, unless it is met. -/
def insertInto (string : BoundedString) : List BoundedString → List BoundedString
  | [] => [string]
  | head :: rest =>
      match compare string head with
      | .lt => string :: head :: rest
      | .eq => head :: rest
      | .gt => head :: insertInto string rest

theorem mem_insertInto (string other : BoundedString) (strings : List BoundedString) :
    other ∈ insertInto string strings ↔ other = string ∨ other ∈ strings := by
  induction strings with
  | nil => simp [insertInto]
  | cons head rest inductionHypothesis =>
      rw [insertInto]
      cases order : compare string head with
      | lt => rw [List.mem_cons]
      | eq =>
          rw [Std.LawfulEqOrd.eq_of_compare order, List.mem_cons]
          simp
      | gt =>
          rw [List.mem_cons, List.mem_cons, inductionHypothesis]
          exact or_left_comm

theorem increasing_insertInto (string : BoundedString) {strings : List BoundedString}
    (increasing : strings.Pairwise BoundedString.Before) :
    (insertInto string strings).Pairwise BoundedString.Before := by
  induction strings with
  | nil => exact List.pairwise_singleton _ _
  | cons head rest inductionHypothesis =>
      have headFirst := (List.pairwise_cons.mp increasing).1
      rw [insertInto]
      cases order : compare string head with
      | lt =>
          have beforeAll : ∀ other ∈ head :: rest, BoundedString.Before string other :=
            List.forall_mem_cons.mpr
              ⟨order, fun other later => BoundedString.Before.trans order (headFirst other later)⟩
          exact List.pairwise_cons.mpr ⟨beforeAll, increasing⟩
      | eq => exact increasing
      | gt =>
          have below : BoundedString.Before head string := Std.OrientedCmp.lt_of_gt order
          refine List.pairwise_cons.mpr ⟨?_, inductionHypothesis increasing.of_cons⟩
          intro other member
          rcases (mem_insertInto string other rest).mp member with rfl | later
          · exact below
          · exact headFirst other later

def insert (set : LookaheadSet) (string : BoundedString) : LookaheadSet :=
  ⟨insertInto string set.strings, increasing_insertInto string set.increasing⟩

/-- Every string of the first set joined to every string of the second. -/
def join (limit : Nat) (left right : LookaheadSet) : LookaheadSet :=
  left.strings.foldl (fun result first =>
    right.strings.foldl (fun result second =>
      result.insert (BoundedString.join limit first second)) result) empty

end LookaheadSet

end Predictive
