import Mathlib.Logic.Relation
import Predictive.Proofs.Grammar.Reading

/-!
Contract: derivations that may apply their rules at any place.

Owns: rewriting of symbol strings, and that it leads to the same words as leftmost derivation.
Does not own: leftmost derivations.

Only words are compared. A form that still holds nonterminals may be reached by rewriting
alone, since a leftmost derivation leaves everything behind its first nonterminal as it was.
-/

namespace Predictive

namespace Grammar

/-- One rule applied to one occurrence of its left side. -/
inductive RewritesOnce (grammar : Grammar) : List Symbol → List Symbol → Prop where
  | expand {rule : Rule} (member : rule ∈ grammar.rules) (before behind : List Symbol) :
      RewritesOnce grammar (before ++ .nonterminal rule.left :: behind)
        (before ++ (rule.right ++ behind))

/-- Any number of rules applied one after the other, each at any place. -/
def Rewrites (grammar : Grammar) : List Symbol → List Symbol → Prop :=
  Relation.ReflTransGen grammar.RewritesOnce

variable {grammar : Grammar}

theorem RewritesOnce.append_left {form next : List Symbol} (rewrites : grammar.RewritesOnce form next)
    (front : List Symbol) : grammar.RewritesOnce (front ++ form) (front ++ next) := by
  cases rewrites with
  | expand member before behind =>
      rw [← List.append_assoc, ← List.append_assoc front before]
      exact .expand member (front ++ before) behind

theorem RewritesOnce.append_right {form next : List Symbol}
    (rewrites : grammar.RewritesOnce form next) (below : List Symbol) :
    grammar.RewritesOnce (form ++ below) (next ++ below) := by
  cases rewrites with
  | expand member before behind =>
      simp only [List.append_assoc, List.cons_append]
      exact .expand member before (behind ++ below)

theorem Rewrites.append_left {form target : List Symbol} (rewrites : grammar.Rewrites form target)
    (front : List Symbol) : grammar.Rewrites (front ++ form) (front ++ target) := by
  induction rewrites with
  | refl => exact Relation.ReflTransGen.refl
  | tail _ once inductionHypothesis => exact inductionHypothesis.tail (once.append_left front)

theorem Rewrites.append_right {form target : List Symbol} (rewrites : grammar.Rewrites form target)
    (below : List Symbol) : grammar.Rewrites (form ++ below) (target ++ below) := by
  induction rewrites with
  | refl => exact Relation.ReflTransGen.refl
  | tail _ once inductionHypothesis => exact inductionHypothesis.tail (once.append_right below)

/-- A reading rewrites its form to the terminals passed and what is left. -/
theorem Reads.rewrites {form rest : List Symbol} {numbers : List Nat} {word : List Terminal}
    (reads : grammar.Reads form numbers word rest) :
    grammar.Rewrites form (terminalString word ++ rest) := by
  induction reads with
  | stop form => exact Relation.ReflTransGen.refl
  | pass terminal _ inductionHypothesis => exact inductionHypothesis.append_left [.terminal terminal]
  | expand found _ inductionHypothesis =>
      exact inductionHypothesis.head (.expand (mem_rules_of_rule? found) [] _)

/-- If a word can be read behind one rewriting, then it can be read before it: the reading of
the rewritten form falls apart around the right side of the rule. -/
theorem RewritesOnce.exists_reads {form next : List Symbol}
    (rewrites : grammar.RewritesOnce form next) {numbers : List Nat} {word : List Terminal}
    (reads : grammar.Reads next numbers word []) :
    ∃ others, grammar.Reads form others word [] := by
  cases rewrites with
  | expand member before behind =>
      obtain ⟨number, found⟩ := exists_rule?_of_mem member
      obtain ⟨first, second, front, back, rfl, rfl, readsBefore, onward⟩ := reads.split_end
      exact ⟨first ++ number :: second, readsBefore.append (.expand found onward)⟩

/-- The order of the rules does not matter to the words that are derived. -/
theorem derives_iff_rewrites {form : List Symbol} {word : List Terminal} :
    grammar.Derives form (terminalString word) ↔ grammar.Rewrites form (terminalString word) := by
  rw [derives_word_iff]
  constructor
  · rintro ⟨numbers, reads⟩
    simpa using reads.rewrites
  · intro rewrites
    induction rewrites using Relation.ReflTransGen.head_induction_on with
    | refl => exact ⟨[], by simpa using reads_word word []⟩
    | head once _ inductionHypothesis =>
        obtain ⟨numbers, reads⟩ := inductionHypothesis
        exact once.exists_reads reads

theorem derives_nil_iff_rewrites {form : List Symbol} :
    grammar.Derives form [] ↔ grammar.Rewrites form [] :=
  @derives_iff_rewrites grammar form []

theorem rewrites_append_nil_iff {front back : List Symbol} :
    grammar.Rewrites (front ++ back) [] ↔ grammar.Rewrites front [] ∧ grammar.Rewrites back [] := by
  simp only [← derives_nil_iff_rewrites, derives_append_nil_iff]

end Grammar

end Predictive
