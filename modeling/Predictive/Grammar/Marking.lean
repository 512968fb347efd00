import Predictive.Grammar.Nullable

/-!
Contract: nullability flags that a loop sets in place.

Owns: the visit of a rule, the pass over all rules, and the loop that ends with the first pass
that sets no flag.
Does not own: the flags that left corners are looked up in. There a round sees the flags of the
round before it only; the two ways agree.
-/

namespace Predictive

/-- The flags as far as a pass has set them. -/
structure Marking where
  flags : Array Bool
  /-- Whether the pass has set any. -/
  changed : Bool
deriving DecidableEq, Repr

namespace Marking

/-- Flags the left side of a rule, unless it is flagged already or a symbol on the right is not. -/
def visit (marking : Marking) (rule : Rule) : Marking :=
  if marking.flags.getD rule.left false then marking
  else if rule.right.all (Grammar.symbolNullable marking.flags) then
    ⟨marking.flags.setIfInBounds rule.left true, true⟩
  else marking

def pass (rules : List Rule) (flags : Array Bool) : Marking :=
  rules.foldl visit ⟨flags, false⟩

/-- Passes until one sets no flag; none if so many are not enough. -/
def settle (rules : List Rule) : Nat → Array Bool → Option (Array Bool)
  | 0, _ => none
  | passes + 1, flags =>
      let marking := pass rules flags
      if marking.changed then settle rules passes marking.flags else some marking.flags

end Marking

/-- For each nonterminal, whether it derives the empty string, by at most so many passes. -/
def Grammar.nullableInPlace (grammar : Grammar) (passes : Nat) : Option (Array Bool) :=
  Marking.settle grammar.rules passes (Array.replicate grammar.nonterminals.size false)

end Predictive
