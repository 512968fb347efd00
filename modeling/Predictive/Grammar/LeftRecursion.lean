import Predictive.Grammar.Nullable

/-!
Contract: a depth-first search for a nonterminal that can begin with itself.

Owns: the search over a graph of successors, and the graph of left corners.
Does not own: the error text, and when the search is run.

The chain holds the nonterminals being explored, the finished list those from which
no cycle can be reached. A chain never repeats a nonterminal, so a depth one larger
than the number of nonterminals is never used up.
-/

namespace Predictive

namespace LeftRecursion

/-- Explores a node. The result is the enlarged finished list, or the first node that is
met while it is still on the chain. -/
def explore (successors : Nonterminal → List Nonterminal) :
    Nat → List Nonterminal → List Nonterminal → Nonterminal →
      Except Nonterminal (List Nonterminal)
  | 0, _, _, node => .error node
  | depth + 1, chain, finished, node =>
      if node ∈ chain then .error node
      else if node ∈ finished then .ok finished
      else do
        let after ← (successors node).foldlM
          (explore successors depth (node :: chain)) finished
        return node :: after

/-- Explores the roots in turn. -/
def exploreAll (successors : Nonterminal → List Nonterminal) (depth : Nat)
    (roots : List Nonterminal) : Except Nonterminal (List Nonterminal) :=
  roots.foldlM (explore successors depth []) []

end LeftRecursion

namespace Grammar

/-- A nonterminal that can begin with itself, if there is one: the first that the search
finds when it starts from the left corners of the rules in order. -/
def leftRecursive? (grammar : Grammar) : Option Nonterminal :=
  let flags := grammar.nullable
  let roots := grammar.rules.flatMap fun rule => leftCorners flags rule.right
  match LeftRecursion.exploreAll (grammar.cornersOf flags)
      (grammar.nonterminals.size + 1) roots with
  | .ok _ => none
  | .error nonterminal => some nonterminal

end Grammar

end Predictive
