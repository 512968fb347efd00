import Mathlib
import Predictive.Proofs.Determinism
import Predictive.Proofs.Run.Completeness
import Predictive.Proofs.Run.Soundness

/-!
Contract: what tables decide with some lookahead, they decide alike with more.

Owns: determinism at greater lengths, the answers of a deterministic table in terms of left
parses, and the agreement of the tables of two lengths.
Does not own: determinism and left parses as such.

The states of two lengths are not compared one by one. Both stand for the same right
contexts, and a beginning that two rules share at the greater length is cut to one that they
share at the smaller length.
-/

namespace Predictive

namespace Grammar

variable {grammar : Grammar} {length shorter longer : Nat}

theorem BeginsApart.mono (apart : grammar.BeginsApart shorter) (le : shorter ≤ longer) :
    grammar.BeginsApart longer := by
  intro nonterminal behind context first firstMember second secondMember lookahead firstBegins
    secondBegins
  exact apart nonterminal behind context first firstMember second secondMember
    (lookahead.take shorter) (firstBegins.take le) (secondBegins.take le)

section WellFormed

variable (wellFormed : grammar.WellFormed)

include wellFormed

theorem WellFormed.isDeterministic_mono (le : shorter ≤ longer)
    (deterministic : (grammar.canonicalTable shorter).isDeterministic = true) :
    (grammar.canonicalTable longer).isDeterministic = true := by
  have apart := wellFormed.beginsApart_of_isDeterministic deterministic
  exact wellFormed.isDeterministic_of_beginsApart (apart.mono le)

/-- A deterministic table answers a word with its left parse and with the counts that the
left parse and the word determine. The lookahead length does not appear on the right. -/
theorem WellFormed.parse_eq_ok_iff (positive : 0 < length)
    (deterministic : (grammar.canonicalTable length).isDeterministic = true)
    {word : List Terminal} {parse : LeftParse} :
    (grammar.canonicalTable length).parse grammar word = .ok parse ↔
      grammar.IsLeftParse parse.rules word ∧
        parse = ⟨parse.rules, parse.rules.length, word.length, 0⟩ := by
  have sound : ∀ answer, (grammar.canonicalTable length).parse grammar word = .ok answer →
      grammar.IsLeftParse answer.rules word ∧
        answer = ⟨answer.rules, answer.rules.length, word.length, 0⟩ := by
    intro answer answered
    obtain ⟨moves, last, path, ⟨accepts, parsed⟩ | ⟨_, _, refused⟩⟩ :=
      wellFormed.parse_cases length word
    · obtain rfl := Except.ok.inj (parsed.symm.trans answered)
      obtain ⟨derives, pops, changes⟩ := wellFormed.isLeftParse_of_accepted positive path accepts
      refine ⟨derives, ?_⟩
      rw [← LeftParse.expansions_ofMoves, ← pops, ← changes]
    · exact absurd (refused.symm.trans answered) (by simp)
  constructor
  · exact sound parse
  · rintro ⟨derives, counted⟩
    rcases wellFormed.parse_of_isLeftParse positive derives with
      ⟨answer, answered, sameRules⟩ | ⟨row, lookahead, ambiguous⟩
    · have answerCounted := (sound answer answered).2
      rw [sameRules, ← counted] at answerCounted
      rw [answered, answerCounted]
    · exact absurd ambiguous (wellFormed.parse_ne_ambiguous deterministic word row lookahead)

end WellFormed

/-- If a grammar has tables at some length, then it has tables at every greater length, and
the lookahead tables of both lengths answer every word with the same left parse, or both
with none. -/
theorem buildTables_longer {draft : Draft} {grammar : Grammar}
    (finished : draft.finish = .ok grammar) {shorter longer : Nat} (positive : 1 ≤ shorter)
    (le : shorter ≤ longer) (bounded : longer ≤ longestLookahead)
    {tables : LookaheadTable × BufferedTable}
    (accepted : buildTables grammar shorter = .ok tables) :
    ∃ longerTables, buildTables grammar longer = .ok longerTables ∧
      ∀ (word : List Terminal) (parse : LeftParse),
        tables.1.parse grammar word = .ok parse ↔
          longerTables.1.parse grammar word = .ok parse := by
  have wellFormed := Draft.wellFormed_of_finish finished
  have shorterBuilt := wellFormed.build_eq (⟨positive, le.trans bounded⟩ : ValidLookahead shorter)
  have longerBuilt := wellFormed.build_eq (⟨positive.trans le, bounded⟩ : ValidLookahead longer)
  obtain ⟨deterministic, rfl⟩ := (buildTables_eq_ok_iff shorterBuilt).mp accepted
  have longerDeterministic := wellFormed.isDeterministic_mono le deterministic
  refine ⟨_, (buildTables_eq_ok_iff longerBuilt).mpr ⟨longerDeterministic, rfl⟩, ?_⟩
  intro word parse
  rw [wellFormed.parse_eq_ok_iff positive deterministic,
    wellFormed.parse_eq_ok_iff (positive.trans le) longerDeterministic]

/-- One terminal of lookahead is enough for nested pairs; with three of them two pairs are
read in the same way. -/
theorem buildTables_longer_nestedPairs : ∃ tables longerTables,
    buildTables nestedPairs 1 = .ok tables ∧ buildTables nestedPairs 3 = .ok longerTables ∧
      tables.1.parse nestedPairs [0, 0, 1, 1] = .ok ⟨[1, 1, 2], 3, 4, 0⟩ ∧
      longerTables.1.parse nestedPairs [0, 0, 1, 1] = .ok ⟨[1, 1, 2], 3, 4, 0⟩ := by
  have evaluated : (buildTables nestedPairs 1).toOption.map (fun tables =>
      tables.1.parse nestedPairs [0, 0, 1, 1]) = some (.ok ⟨[1, 1, 2], 3, 4, 0⟩) := by cbv
  cases built : buildTables nestedPairs 1 with
  | error failure => simp [built, Except.toOption] at evaluated
  | ok tables =>
      rw [built] at evaluated
      have parsed := Option.some.inj evaluated
      obtain ⟨longerTables, longerBuilt, same⟩ :=
        buildTables_longer finish_nestedPairs (by decide) (by decide : 1 ≤ 3) (by decide) built
      exact ⟨tables, longerTables, rfl, longerBuilt, parsed, (same _ _).mp parsed⟩

end Grammar

end Predictive
