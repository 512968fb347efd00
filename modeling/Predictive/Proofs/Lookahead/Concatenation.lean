import Predictive.Proofs.Grammar.Draft
import Predictive.Proofs.Lookahead.Branch

/-!
Contract: FIRST respects concatenation and truncation.

Owns: FIRST at a smaller length as the cut strings of a greater one, and both laws for the two
ways to compute FIRST.
Does not own: beginnings as such, and FIRST of symbols that the grammar never gave out.

Both laws need that every string found can be carried on. A string that is full comes without
a rest, and only where all nonterminals have rules and none is left recursive does the rest
have a beginning too (`WellFormed.exists_longer`).
-/

namespace Predictive

theorem LookaheadSet.mem_ofWords (limit : Nat) (words : List (List Terminal))
    (string : BoundedString) :
    string ∈ ofWords limit words ↔ ∃ word ∈ words, BoundedString.cut limit word = string := by
  rw [ofWords, mem_ofList, List.mem_map]

namespace Grammar

/-- Whether FIRST of a form is a set, both as the tables compute it and as the search by
branches does, given enough moves. -/
def HasFirst (grammar : Grammar) (form : List Symbol) (length : Nat) (set : LookaheadSet) :
    Prop :=
  grammar.first form length = .ok set ∧
    ∃ enough, ∀ moves, enough ≤ moves →
      grammar.firstByBranches moves form length = some (.ok set)

variable {grammar : Grammar}

section WellFormed

variable (wellFormed : grammar.WellFormed)

include wellFormed

theorem WellFormed.hasFirst_beginnings (form : List Symbol) (length : Nat) :
    grammar.HasFirst form length (grammar.beginnings length form) :=
  ⟨wellFormed.first_eq form length, wellFormed.exists_firstByBranches form length⟩

/-- The beginnings at a length, cut shorter, are those at the smaller length. -/
theorem WellFormed.ofWords_beginnings {form : List Symbol} (known : grammar.KnowsAll form)
    {shorter length : Nat} (le : shorter ≤ length) :
    LookaheadSet.ofWords shorter (grammar.beginnings length form).words =
      grammar.beginnings shorter form := by
  apply LookaheadSet.ext_mem
  intro string
  rw [LookaheadSet.mem_ofWords, wellFormed.isFirst_beginnings shorter form string]
  constructor
  · rintro ⟨_, member, rfl⟩
    obtain ⟨longer, inSet, rfl⟩ := List.mem_map.mp member
    have beginning := ((wellFormed.isFirst_beginnings length form longer).mp inSet).2
    exact ⟨rfl, beginning.take le⟩
  · rintro ⟨ofLimit, beginning⟩
    obtain ⟨word, longer, spelled⟩ := wellFormed.exists_longer known le beginning
    refine ⟨word, ?_, BoundedString.ext spelled ofLimit.symm⟩
    exact List.mem_map.mpr ((wellFormed.hasWord_beginnings length form word).mpr longer)

end WellFormed

/-- Over known symbols FIRST of a concatenation is the cut concatenation of the two FIRST sets,
and FIRST at a smaller length is the set of the strings of a greater one, each cut. -/
theorem first_concat_and_cut {draft : Draft} {grammar : Grammar}
    (finished : draft.finish = .ok grammar) {left right : List Symbol}
    (leftKnown : grammar.KnowsAll left) (rightKnown : grammar.KnowsAll right)
    {shorter length : Nat} (le : shorter ≤ length) :
    ∃ leftSet rightSet, grammar.HasFirst left length leftSet ∧
      grammar.HasFirst right length rightSet ∧
      grammar.HasFirst (left ++ right) length (LookaheadSet.concat length leftSet rightSet) ∧
      grammar.HasFirst left shorter (LookaheadSet.ofWords shorter leftSet.words) := by
  have wellFormed := Draft.wellFormed_of_finish finished
  refine ⟨grammar.beginnings length left, grammar.beginnings length right,
    wellFormed.hasFirst_beginnings left length, wellFormed.hasFirst_beginnings right length, ?_, ?_⟩
  · rw [wellFormed.concat_beginnings length left rightKnown]
    exact wellFormed.hasFirst_beginnings (left ++ right) length
  · rw [wellFormed.ofWords_beginnings leftKnown le]
    exact wellFormed.hasFirst_beginnings left shorter

/-- Nested pairs before a terminal that closes one: the empty string is carried on, the full
ones are not. -/
theorem first_concat_and_cut_nestedPairs : ∃ leftSet rightSet,
    nestedPairs.HasFirst [.nonterminal 0] 2 leftSet ∧ leftSet.words = [[], [0, 0], [0, 1]] ∧
    nestedPairs.HasFirst [.terminal 1] 2 rightSet ∧
    nestedPairs.HasFirst [.nonterminal 0, .terminal 1] 2
      (LookaheadSet.concat 2 leftSet rightSet) ∧
    (LookaheadSet.concat 2 leftSet rightSet).words = [[0, 0], [0, 1], [1]] ∧
    nestedPairs.HasFirst [.nonterminal 0] 1 (LookaheadSet.ofWords 1 leftSet.words) := by
  have leftKnown : nestedPairs.KnowsAll [.nonterminal 0] :=
    knowsAll_cons.mpr ⟨(by decide : 0 < nestedPairs.nonterminals.size), knowsAll_nil⟩
  have rightKnown : nestedPairs.KnowsAll [.terminal 1] :=
    knowsAll_cons.mpr ⟨(by decide : 1 < nestedPairs.terminals.size), knowsAll_nil⟩
  obtain ⟨leftSet, rightSet, ofLeft, ofRight, ofBoth, ofShorter⟩ :=
    first_concat_and_cut finish_nestedPairs leftKnown rightKnown (by decide : 1 ≤ 2)
  have leftEvaluated : (nestedPairs.first [.nonterminal 0] 2).toOption.map LookaheadSet.words =
      some [[], [0, 0], [0, 1]] := by cbv
  have bothEvaluated : (nestedPairs.first [.nonterminal 0, .terminal 1] 2).toOption.map
      LookaheadSet.words = some [[0, 0], [0, 1], [1]] := by cbv
  rw [ofLeft.1] at leftEvaluated
  have bothFirst : nestedPairs.first [.nonterminal 0, .terminal 1] 2 =
      .ok (LookaheadSet.concat 2 leftSet rightSet) := ofBoth.1
  rw [bothFirst] at bothEvaluated
  exact ⟨leftSet, rightSet, ofLeft, Option.some.inj leftEvaluated, ofRight, ofBoth,
    Option.some.inj bothEvaluated, ofShorter⟩

/-- A nonterminal that the grammar never gave out has no beginnings, so it empties the
concatenation, while FIRST of the whole never comes to it. -/
example : (nestedPairs.first [.terminal 0, .nonterminal 7] 1).toOption.map LookaheadSet.words =
      some [[0]] ∧
    (nestedPairs.first [.nonterminal 7] 1).toOption = some LookaheadSet.empty := by
  constructor <;> cbv

end Grammar

end Predictive
