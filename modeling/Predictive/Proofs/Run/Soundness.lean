import Mathlib
import Predictive.Proofs.Grammar.Draft
import Predictive.Proofs.Run.Window

/-!
Contract: what the lookahead table accepts, it has derived.

Owns: the left parse that an accepting run spells.
Does not own: whether an input is accepted.
-/

namespace Predictive

namespace Grammar

variable {grammar : Grammar} {length : Nat}

/-- The expansions of an accepting path are a left parse of the whole input, and every
terminal is popped once. -/
theorem WellFormed.isLeftParse_of_accepted (wellFormed : grammar.WellFormed)
    (positive : 0 < length) {input : List Terminal} {last : WindowConfiguration}
    {moves : List Move} (path : Run.Path (grammar.canonicalTable length).step
      ((grammar.canonicalTable length).initial input) moves last)
    (accepts : (grammar.canonicalTable length).step last = .accepted) :
    grammar.IsLeftParse (LeftParse.ofMoves moves).rules input ∧
      (LeftParse.ofMoves moves).pops = input.length ∧
      (LeftParse.ofMoves moves).changes = 0 := by
  obtain ⟨word, rest, reads, represents, splits, _, pops, changes⟩ :=
    wellFormed.reads_of_path_initial path
  obtain ⟨rfl, used⟩ := wellFormed.accepted_of_represents positive represents accepts
  rw [used, List.append_nil] at splits
  subst splits
  exact ⟨isLeftParse_iff_reads.mpr reads, pops, changes⟩

end Grammar

namespace LookaheadTable

/-- A grammar has a table at every length, and an answer of the table is a left parse of the
input, whether or not the table has conflicts. -/
theorem parse_sound {draft : Draft} {grammar : Grammar} (finished : draft.finish = .ok grammar)
    {length : Nat} (valid : ValidLookahead length) :
    ∃ table, build grammar length = .ok table ∧
      ∀ (input : List Terminal) (parse : LeftParse), table.parse grammar input = .ok parse →
        grammar.IsLeftParse parse.rules input ∧ parse.expansions = parse.rules.length ∧
          parse.pops = input.length ∧ parse.changes = 0 := by
  have wellFormed := Draft.wellFormed_of_finish finished
  refine ⟨grammar.canonicalTable length, wellFormed.build_eq valid, ?_⟩
  intro input parse answered
  obtain ⟨moves, last, path, ⟨accepts, parsed⟩ | ⟨_, _, refused⟩⟩ :=
    wellFormed.parse_cases length input
  · rw [parsed] at answered
    obtain rfl := Except.ok.inj answered
    obtain ⟨derives, pops, changes⟩ :=
      wellFormed.isLeftParse_of_accepted valid.1 path accepts
    exact ⟨derives, LeftParse.expansions_ofMoves moves, pops, changes⟩
  · rw [refused] at answered
    exact absurd answered (by simp)

/-- Two pairs, read with a window that the end of the input shortens. -/
theorem parse_sound_nestedPairs : ∃ table parse,
    build .nestedPairs 2 = .ok table ∧
      table.parse .nestedPairs [0, 0, 1, 1] = .ok parse ∧ parse.pops = 4 ∧
      Grammar.nestedPairs.IsLeftParse parse.rules [0, 0, 1, 1] := by
  obtain ⟨table, built, sound⟩ := parse_sound finish_nestedPairs (by decide : ValidLookahead 2)
  have evaluated : (build .nestedPairs 2).toOption.map (·.parse .nestedPairs [0, 0, 1, 1]) =
      some (.ok ⟨[1, 1, 2], 3, 4, 0⟩) := by cbv
  rw [built] at evaluated
  have parsed := Option.some.inj evaluated
  obtain ⟨derives, _, pops, _⟩ := sound _ _ parsed
  exact ⟨table, _, built, parsed, pops, derives⟩

end LookaheadTable

end Predictive
