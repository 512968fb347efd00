import Predictive.Grammar.Basic

/-!
Contract: terminal strings of bounded length, and their order.

Owns: the string with its limit, cutting, pushing, and a strict linear order.
Does not own: sets of strings, and what a string says about a derivation.

A string shorter than its limit stands for a derivation that ended there; one that
reaches its limit may have been cut. The order is lexicographic on the terminals, a
proper beginning first, then by the limit.
-/

namespace Predictive

structure BoundedString where
  terminals : List Terminal
  limit : Nat
  length_le : terminals.length ≤ limit
deriving DecidableEq, Repr

namespace BoundedString

def empty (limit : Nat) : BoundedString := ⟨[], limit, Nat.zero_le limit⟩

/-- The first `limit` terminals of a list. -/
def cut (limit : Nat) (terminals : List Terminal) : BoundedString :=
  ⟨terminals.take limit, limit, List.length_take_le limit terminals⟩

def length (string : BoundedString) : Nat := string.terminals.length

def isEmpty (string : BoundedString) : Bool := string.terminals.isEmpty

def first? (string : BoundedString) : Option Terminal := string.terminals.head?

/-- Terminals that can still be pushed. -/
def room (string : BoundedString) : Nat := string.limit - string.terminals.length

def isFull (string : BoundedString) : Bool := string.limit ≤ string.terminals.length

/-- Appends a terminal; none when the string is full. -/
def push? (string : BoundedString) (terminal : Terminal) : Option BoundedString :=
  if fits : string.terminals.length < string.limit then
    some ⟨string.terminals ++ [terminal], string.limit, by
      rw [List.length_append]
      exact fits⟩
  else none

@[ext]
theorem ext {left right : BoundedString} (terminals : left.terminals = right.terminals)
    (limit : left.limit = right.limit) : left = right := by
  cases left
  cases right
  simp_all

instance : Ord BoundedString where
  compare := compareLex (compareOn terminals) (compareOn limit)

instance : Std.TransOrd BoundedString :=
  inferInstanceAs (Std.TransCmp (compareLex (compareOn terminals) (compareOn limit)))

instance : Std.LawfulEqOrd BoundedString where
  eq_of_compare {left right} equal := by
    have parts : compareOn terminals left right = .eq ∧ compareOn limit left right = .eq :=
      compareLex_eq_eq.mp equal
    exact ext (Std.LawfulEqOrd.eq_of_compare parts.1) (Std.LawfulEqOrd.eq_of_compare parts.2)

/-- The strict order. -/
def Before (left right : BoundedString) : Prop := compare left right = .lt

instance (left right : BoundedString) : Decidable (Before left right) :=
  inferInstanceAs (Decidable (_ = _))

/-- The order with equality. -/
def le (left right : BoundedString) : Bool := (compare left right).isLE

theorem not_before_self (string : BoundedString) : ¬ Before string string := by
  unfold Before
  rw [Std.ReflOrd.compare_self]
  decide

theorem Before.trans {first second third : BoundedString} (low : Before first second)
    (high : Before second third) : Before first third :=
  Std.TransCmp.lt_trans low high

theorem le_trans (first second third : BoundedString) (low : le first second = true)
    (high : le second third = true) : le first third = true :=
  Std.TransCmp.isLE_trans low high

theorem le_total (left right : BoundedString) : (le left right || le right left) = true := by
  unfold le
  rw [Std.OrientedOrd.eq_swap (a := right)]
  cases compare left right <;> rfl

theorem before_of_le {left right : BoundedString} (le : le left right = true)
    (different : left ≠ right) : Before left right := by
  unfold Before
  unfold BoundedString.le at le
  cases order : compare left right with
  | lt => rfl
  | eq => exact absurd (Std.LawfulEqOrd.eq_of_compare order) different
  | gt => rw [order] at le; exact absurd le (by decide)

theorem le_of_before {left right : BoundedString} (before : Before left right) :
    le left right = true := by
  unfold le
  unfold Before at before
  rw [before]
  rfl

end BoundedString

end Predictive
