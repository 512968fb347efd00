import Predictive.Lookahead.First

/-!
Contract: what can follow the nonterminals of a right side, given what follows its left.

Owns: contexts, the parts of a rule that do not depend on what follows it, and their
combination with a follow set.
Does not own: which contexts a grammar reaches.
-/

namespace Predictive

/-- A nonterminal together with the strings that can follow it. -/
structure Context where
  nonterminal : Nonterminal
  follow : LookaheadSet
deriving DecidableEq, Repr

/-- Each nonterminal occurrence of a symbol string with the symbols behind it. -/
def occurrencesWithRest : List Symbol → List (Nonterminal × List Symbol)
  | [] => []
  | .terminal _ :: rest => occurrencesWithRest rest
  | .nonterminal nonterminal :: rest => (nonterminal, rest) :: occurrencesWithRest rest

/-- The contexts of nonterminals given with FIRST of what stands behind each, when
`follow` follows the whole. -/
def contextsOf (trailing : List (Nonterminal × LookaheadSet)) (length : Nat)
    (follow : LookaheadSet) : List Context :=
  trailing.map fun (nonterminal, rest) =>
    ⟨nonterminal, LookaheadSet.concat length rest follow⟩

/-- What a rule says about lookahead, whatever follows it. -/
structure RuleProfile where
  rule : Rule
  /-- FIRST of the right side. -/
  leading : LookaheadSet
  /-- Each nonterminal occurrence with FIRST of the symbols behind it. -/
  trailing : List (Nonterminal × LookaheadSet)
deriving DecidableEq, Repr

namespace RuleProfile

/-- The lookaheads under which the rule applies. -/
def lookaheads (profile : RuleProfile) (length : Nat) (follow : LookaheadSet) : LookaheadSet :=
  LookaheadSet.concat length profile.leading follow

/-- The context of each nonterminal occurrence. -/
def contexts (profile : RuleProfile) (length : Nat) (follow : LookaheadSet) : List Context :=
  contextsOf profile.trailing length follow

end RuleProfile

namespace Grammar

/-- Each nonterminal occurrence of a right side with FIRST of the symbols behind it. -/
def trailing (grammar : Grammar) (length : Nat) (right : List Symbol) :
    Except Nonterminal (List (Nonterminal × LookaheadSet)) :=
  (occurrencesWithRest right).mapM fun (nonterminal, rest) => do
    let set ← grammar.first rest length
    return (nonterminal, set)

def profile (grammar : Grammar) (length : Nat) (rule : Rule) :
    Except Nonterminal RuleProfile := do
  let leading ← grammar.first rule.right length
  let trailing ← grammar.trailing length rule.right
  return ⟨rule, leading, trailing⟩

/-- The contexts of a rule's nonterminal occurrences when `follow` follows its left
side. -/
def follow (grammar : Grammar) (rule : Rule) (follow : LookaheadSet) (length : Nat) :
    Except Nonterminal (List Context) := do
  let trailing ← grammar.trailing length rule.right
  return contextsOf trailing length follow

end Grammar

end Predictive
