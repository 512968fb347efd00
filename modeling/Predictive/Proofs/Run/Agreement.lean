import Mathlib
import Predictive.Proofs.Grammar.Draft
import Predictive.Proofs.Run.Buffered

/-!
Contract: the two tables of a grammar answer alike.

Owns: what it means for two answers to agree, and that those of a grammar's tables do.
Does not own: what the answers say about the grammar.
-/

namespace Predictive

/-- How an answer of the buffered table has to go with one of the lookahead table. -/
structure Agree (grammar : Grammar) (length : Nat) (input : List Terminal)
    (window : Except (ParseFailure StackSymbol (List Terminal)) LeftParse)
    (buffered : Except (ParseFailure BufferedRow (List BufferSymbol)) LeftParse) : Prop where
  /-- Neither machine uses up its steps or its pushdown. -/
  finished : window ≠ .error .unfinished ∧ buffered ≠ .error .unfinished
  accepted_iff : (∃ parse, window = .ok parse) ↔ ∃ parse, buffered = .ok parse
  /-- Both find the same derivation. One table makes no changes; the other reads every
  terminal and the end of the input once. -/
  parses : ∀ left right, window = .ok left → buffered = .ok right →
    left.rules = right.rules ∧ left.expansions = right.expansions ∧ left.pops = right.pops ∧
      left.changes = 0 ∧ right.changes = input.length + 1
  ambiguous_iff : ∀ row, (∃ buffer, buffered = .error (.ambiguous row buffer)) ↔
    ∃ top lookahead, row = .stack top ∧ window = .error (.ambiguous top lookahead)
  noAction_iff : (∃ row lookahead place, window = .error (.noAction row lookahead place)) ↔
    ∃ row buffer place, buffered = .error (.noAction row buffer place)
  /-- The buffered table misses an action when it has read the whole window, or all that there
  is before the end of the input or the first unknown terminal. -/
  places : ∀ top lookahead place row buffer reached,
    window = .error (.noAction top lookahead place) →
    buffered = .error (.noAction row buffer reached) →
    reached = min (min (place + length) input.length)
      (firstUnknown grammar.terminals.size input)

namespace Agree

variable {grammar : Grammar} {length : Nat} {input : List Terminal}

theorem of_accepted {parse : LeftParse} (unchanged : parse.changes = 0) :
    Agree grammar length input (.ok parse)
      (.ok { parse with changes := input.length + 1 }) where
  finished := by simp
  accepted_iff := by simp
  parses := by
    intro left right isLeft isRight
    cases isLeft
    cases isRight
    exact ⟨rfl, rfl, rfl, unchanged, rfl⟩
  ambiguous_iff := by simp
  noAction_iff := by simp
  places := by simp

theorem of_ambiguous (top : StackSymbol) (lookahead : List Terminal)
    (buffer : List BufferSymbol) :
    Agree grammar length input (.error (.ambiguous top lookahead))
      (.error (.ambiguous (.stack top) buffer)) where
  finished := by simp
  accepted_iff := by simp
  parses := by simp
  ambiguous_iff := by
    intro row
    simp [eq_comm]
  noAction_iff := by simp
  places := by simp

theorem of_noAction (top : StackSymbol) (lookahead : List Terminal) (place : Nat)
    (row : BufferedRow) (buffer : List BufferSymbol) :
    Agree grammar length input (.error (.noAction top lookahead place))
      (.error (.noAction row buffer (min (min (place + length) input.length)
        (firstUnknown grammar.terminals.size input)))) where
  finished := by simp
  accepted_iff := by simp
  parses := by simp
  ambiguous_iff := by simp
  noAction_iff := by simp
  places := by
    intro _ _ _ _ _ _ missed reached
    simp only [Except.error.injEq, ParseFailure.noAction.injEq] at missed reached
    obtain ⟨_, _, rfl⟩ := missed
    exact reached.2.2.symm

end Agree

namespace Grammar

variable {grammar : Grammar} {length : Nat}

section WellFormed

variable (wellFormed : grammar.WellFormed)

include wellFormed

/-- The part of an input that a path has consumed is known. -/
theorem WellFormed.firstUnknown_of_path {input : List Terminal} {moves : List Move}
    {last : WindowConfiguration} (path : Run.Path (grammar.canonicalTable length).step
      ((grammar.canonicalTable length).initial input) moves last) :
    input.length = last.position + last.rest.length ∧
      firstUnknown grammar.terminals.size input =
        last.position + firstUnknown grammar.terminals.size last.rest := by
  obtain ⟨word, _, reads, _, splits, place, _⟩ :=
    wellFormed.reads_of_path_initial path
  have startKnown : grammar.KnowsAll [.nonterminal grammar.start] :=
    knowsAll_cons.mpr ⟨wellFormed.start_known, knowsAll_nil⟩
  have wordKnown := (wellFormed.known_of_reads reads startKnown).1
  rw [splits, firstUnknown_append wordKnown, List.length_append, place]
  exact ⟨rfl, rfl⟩

/-- A path of the buffered machine stays within its budget, which allows for the changes. -/
theorem WellFormed.length_lt_of_buffered_path {input : List Terminal} {moves all : List Move}
    {last : WindowConfiguration} {loaded : BufferedConfiguration}
    (path : Run.Path (grammar.canonicalTable length).step
      ((grammar.canonicalTable length).initial input) moves last)
    (same : (all.filter fun move => !move.isChange) = moves)
    (tracks : (grammar.canonicalTable length).Tracks last (all.countP Move.isChange) loaded) :
    all.length < grammar.stepBound input.length + input.length + 1 := by
  have budget := wellFormed.length_lt_of_path path
  have made := tracks.made_le
  have parts := List.length_eq_length_filter_add (l := all) Move.isChange
  rw [same, ← List.countP_eq_length_filter] at parts
  rw [← (wellFormed.firstUnknown_of_path path).1] at made
  omega

/-- Whatever the input, the two tables of a grammar answer alike. -/
theorem WellFormed.agree (positive : 0 < length) (input : List Terminal) :
    Agree grammar length input ((grammar.canonicalTable length).parse grammar input)
      (BufferedTable.parse grammar ⟨grammar.canonicalTable length⟩ input) := by
  obtain ⟨moves, ⟨stack, rest, position⟩, path, outcome⟩ := wellFormed.parse_cases length input
  obtain ⟨wholeLength, unknown⟩ := wellFormed.firstUnknown_of_path path
  obtain ⟨_, _, _, represents, _, _, _, unchanged⟩ :=
    wellFormed.reads_of_path_initial path
  cases stack with
  | nil => exact absurd rfl represents.ne_nil
  | cons top below =>
      have tablePositive : 0 < (grammar.canonicalTable length).length := positive
      obtain ⟨all, loaded, buffered, same, tracks, stops⟩ :=
        LookaheadTable.exists_buffered_path tablePositive path
      have fits := wellFormed.length_lt_of_buffered_path path same tracks
      rcases outcome with ⟨accepts, parsed⟩ | ⟨failure, fails, parsed⟩
      · obtain ⟨_, used⟩ := wellFormed.accepted_of_represents positive represents accepts
        obtain rfl : rest = [] := used
        have alsoAccepts := stops.accepted accepts
        have made := tracks.made_of_accepted tablePositive alsoAccepts
        have answered : BufferedTable.parse grammar ⟨grammar.canonicalTable length⟩ input =
            .ok (LeftParse.ofMoves all) := Run.result_of_accepted buffered fits alsoAccepts
        have allRead : position + 1 = input.length + 1 := by
          rw [wholeLength]
          rfl
        rw [parsed, answered, LeftParse.ofMoves_filter all, same, made, allRead]
        exact .of_accepted unchanged
      · rw [parsed]
        cases failure with
        | unfinished => exact absurd fails (wellFormed.not_unfinished path)
        | ambiguous row lookahead =>
            have answered : BufferedTable.parse grammar ⟨grammar.canonicalTable length⟩ input =
                .error (.ambiguous (.stack row) loaded.buffer) :=
              Run.result_of_failed buffered fits (stops.ambiguous row lookahead fails)
            rw [answered]
            exact .of_ambiguous row lookahead loaded.buffer
        | noAction row lookahead missing =>
            obtain ⟨other, alsoFails⟩ := stops.missed row lookahead missing fails
            have here : missing = position := LookaheadTable.place_of_noAction fails
            have reached : position + min length (firstUnknown grammar.terminals.size rest) =
                min (min (missing + length) input.length)
                  (firstUnknown grammar.terminals.size input) := by
              have restLe := firstUnknown_le grammar.terminals.size rest
              rw [here, unknown, wholeLength]
              dsimp only
              omega
            have answered : BufferedTable.parse grammar ⟨grammar.canonicalTable length⟩ input =
                .error (.noAction other loaded.buffer
                  (position + min length (firstUnknown grammar.terminals.size rest))) :=
              Run.result_of_failed buffered fits alsoFails
            rw [answered, reached]
            exact .of_noAction row lookahead missing other loaded.buffer

end WellFormed

end Grammar

namespace LookaheadTable

/-- A grammar has both tables at every length, and on every input, unknown terminals and
conflicts included, the second answers as the first does. -/
theorem parse_agrees {draft : Draft} {grammar : Grammar} (finished : draft.finish = .ok grammar)
    {length : Nat} (valid : ValidLookahead length) :
    ∃ table, build grammar length = .ok table ∧ ∀ input : List Terminal,
      Agree grammar length input (table.parse grammar input)
        (BufferedTable.parse grammar ⟨table⟩ input) := by
  have wellFormed := Draft.wellFormed_of_finish finished
  exact ⟨grammar.canonicalTable length, wellFormed.build_eq valid,
    wellFormed.agree valid.1⟩

/-- The first terminal is popped, the second one is unknown: the lookahead table stops before
it, the buffered table with the first one in its buffer. -/
theorem parse_agrees_nestedPairs : ∃ table top lookahead place row buffer reached,
    build .nestedPairs 2 = .ok table ∧
      table.parse .nestedPairs [0, 0, 7] = .error (.noAction top lookahead place) ∧
      BufferedTable.parse .nestedPairs ⟨table⟩ [0, 0, 7] =
        .error (.noAction row buffer reached) ∧
      place = 1 ∧ reached = 2 := by
  obtain ⟨table, built, agrees⟩ :=
    parse_agrees finish_nestedPairs (by decide : ValidLookahead 2)
  have agree := agrees [0, 0, 7]
  have evaluated : (build .nestedPairs 2).toOption.map (·.parse .nestedPairs [0, 0, 7]) =
      some (.error (.noAction (.state 1) [0, 7] 1)) := by cbv
  rw [built] at evaluated
  have missed := Option.some.inj evaluated
  obtain ⟨row, buffer, reached, alsoMissed⟩ := agree.noAction_iff.mp ⟨_, _, _, missed⟩
  exact ⟨table, _, _, _, row, buffer, reached, built, missed, alsoMissed, rfl,
    agree.places _ _ _ _ _ _ missed alsoMissed⟩

end LookaheadTable

end Predictive
