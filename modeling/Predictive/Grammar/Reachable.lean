import Predictive.Discovery
import Predictive.Grammar.Basic

/-!
Contract: the nonterminals that derivations from the start can meet.

Owns: their discovery, and the rules that apply to them.
Does not own: what follows them.

Each step of the discovery takes one nonterminal, so it needs no more steps than the
grammar has nonterminals.
-/

namespace Predictive

namespace Grammar

/-- The nonterminals that the rules of a nonterminal mention. -/
def mentioned (grammar : Grammar) (nonterminal : Nonterminal) : List Nonterminal :=
  (grammar.rulesFor nonterminal).flatMap Rule.occurrences

/-- The nonterminals that the start leads to, in the order of discovery. -/
def reachable (grammar : Grammar) : List Nonterminal :=
  Discovery.explore grammar.mentioned grammar.nonterminals.size 0 [grammar.start]

/-- The rules whose left side is reachable. -/
def reachableRules (grammar : Grammar) : List Rule :=
  let reachable := grammar.reachable
  grammar.rules.filter fun rule => rule.left ∈ reachable

end Grammar

end Predictive
