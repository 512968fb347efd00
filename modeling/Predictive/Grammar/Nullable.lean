import Predictive.Grammar.Basic

/-!
Contract: which nonterminals derive the empty string, and which nonterminals a right
side can begin with before anything is consumed.

Owns: the flags, computed in rounds, and left corners.
Does not own: derivations, and what left corners are checked for.

After `d` rounds a flag is set exactly when the empty string has a derivation tree of
height at most `d`. A tree in which no nonterminal repeats along a path is no higher
than the number of nonterminals, so that many rounds reach every flag.
-/

namespace Predictive

namespace Grammar

/-- Whether a symbol derives the empty string, judged by flags for the nonterminals. -/
def symbolNullable (flags : Array Bool) : Symbol → Bool
  | .terminal _ => false
  | .nonterminal number => flags.getD number false

/-- One round: the left side of each rule whose symbols are all flagged is flagged too. -/
def nullableRound (grammar : Grammar) (flags : Array Bool) : Array Bool :=
  grammar.rules.foldl (fun next rule =>
    if rule.right.all (symbolNullable flags) then next.setIfInBounds rule.left true else next)
    flags

/-- The flags after a number of rounds, from all unset. -/
def nullableAfter (grammar : Grammar) : Nat → Array Bool
  | 0 => Array.replicate grammar.nonterminals.size false
  | rounds + 1 => grammar.nullableRound (grammar.nullableAfter rounds)

/-- For each nonterminal, whether it derives the empty string. -/
def nullable (grammar : Grammar) : Array Bool :=
  grammar.nullableAfter grammar.nonterminals.size

/-- The leading nonterminals of a right side, up to and including the first that is not
nullable. -/
def leftCorners (flags : Array Bool) : List Symbol → List Nonterminal
  | [] => []
  | .terminal _ :: _ => []
  | .nonterminal number :: rest =>
      number :: if flags.getD number false then leftCorners flags rest else []

/-- The left corners of all rules of a nonterminal, in rule order. -/
def cornersOf (grammar : Grammar) (flags : Array Bool) (nonterminal : Nonterminal) :
    List Nonterminal :=
  (grammar.rulesFor nonterminal).flatMap fun rule => leftCorners flags rule.right

end Grammar

end Predictive
