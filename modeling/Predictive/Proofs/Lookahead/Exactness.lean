import Mathlib
import Predictive.Proofs.Grammar.Draft
import Predictive.Proofs.Lookahead.Branch

/-!
Contract: FIRST over finished grammars is total and exact.

Owns: what FIRST answers for any symbol string and any length, and that the search by
branches comes to the same answer.
Does not own: how either of the two gets there.

Exact means that a short string is a whole derived word, whichever order its rules are applied
in, and that a full one begins a form of a leftmost derivation. Symbols that the grammar never
gave out are allowed; a nonterminal among them derives nothing.
-/

namespace Predictive

namespace Grammar

/-- FIRST answers for every symbol string and every length, and the search by branches ends with
the same answer, its guard against left recursion silent. The answer holds strings of that
length limit only, and exactly the words shorter than the length that the form derives and the
terminals of the length that a leftmost derivation can begin with. It is not empty if the
grammar knows the nonterminals of the form. -/
theorem first_exact {draft : Draft} {grammar : Grammar} (finished : draft.finish = .ok grammar)
    (form : List Symbol) (length : Nat) :
    ∃ set, grammar.first form length = .ok set ∧
      (∃ enough, ∀ moves, enough ≤ moves →
        grammar.firstByBranches moves form length = some (.ok set)) ∧
      (∀ string ∈ set, string.limit = length) ∧
      (∀ word, (∃ string ∈ set, string.terminals = word) ↔
        (word.length < length ∧ grammar.Rewrites form (terminalString word)) ∨
          (word.length = length ∧
            ∃ rest, grammar.Derives form (terminalString word ++ rest))) ∧
      ((∀ nonterminal, .nonterminal nonterminal ∈ form →
        nonterminal < grammar.nonterminals.size) → ∃ string, string ∈ set) := by
  have wellFormed := Draft.wellFormed_of_finish finished
  refine ⟨grammar.beginnings length form, wellFormed.first_eq form length,
    wellFormed.exists_firstByBranches form length, ?_, ?_, ?_⟩
  · intro string member
    exact ((wellFormed.isFirst_beginnings length form string).mp member).1
  · intro word
    rw [wellFormed.hasWord_beginnings, isBeginning_iff_rewrites]
  · intro known
    obtain ⟨word, beginning⟩ := wellFormed.exists_isBeginning_of_known known length
    obtain ⟨string, member, _⟩ := (wellFormed.hasWord_beginnings length form word).mpr beginning
    exact ⟨string, member⟩

/-- Within two terminals nested pairs are empty, or begin with two that open or with a pair. One
terminal that opens is no nested pair. -/
theorem first_exact_nestedPairs : ∃ set, nestedPairs.first [.nonterminal 0] 2 = .ok set ∧
    set.words = [[], [0, 0], [0, 1]] ∧
    nestedPairs.Rewrites [.nonterminal 0] [] ∧
    (∃ rest, nestedPairs.Derives [.nonterminal 0] (.terminal 0 :: .terminal 0 :: rest)) ∧
    ¬nestedPairs.Rewrites [.nonterminal 0] [.terminal 0] := by
  obtain ⟨set, answered, _, _, exact, _⟩ := first_exact finish_nestedPairs [.nonterminal 0] 2
  have evaluated : (nestedPairs.first [.nonterminal 0] 2).toOption.map LookaheadSet.words =
      some [[], [0, 0], [0, 1]] := by cbv
  rw [answered] at evaluated
  have words : set.words = [[], [0, 0], [0, 1]] := Option.some.inj evaluated
  have holds (word : List Terminal) :
      (∃ string ∈ set, string.terminals = word) ↔ word ∈ set.words := List.mem_map.symm
  simp only [holds, words] at exact
  refine ⟨set, answered, words, ?_, ?_, ?_⟩
  · rcases (exact []).mp (by decide) with ⟨_, derived⟩ | ⟨impossible, _⟩
    · exact derived
    · exact absurd impossible (by decide)
  · rcases (exact [0, 0]).mp (by decide) with ⟨impossible, _⟩ | ⟨_, derived⟩
    · exact absurd impossible (by decide)
    · exact derived
  · intro derived
    exact absurd ((exact [0]).mpr (.inl ⟨by decide, derived⟩)) (by decide)

end Grammar

end Predictive
