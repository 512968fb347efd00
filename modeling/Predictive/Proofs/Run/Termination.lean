import Mathlib
import Predictive.Proofs.Run.Agreement

/-!
Contract: runs of both tables come to an end.

Owns: what it means for a machine to terminate with an answer, and that the machines of a
grammar's tables do.
Does not own: what the answers say, and the bound on derivations behind the step bound.

Expansions consume nothing and may lengthen the pushdown. What bounds them is that a run is a
reading of the start symbol, and that a reading within the input applies few rules. The
buffered machine makes the same moves and one change for each terminal and for the end.
-/

namespace Predictive

namespace Run

variable {Configuration Row Lookahead : Type}

/-- What a machine answers where it stops. There is no case for a machine that is
unfinished. -/
inductive Returns (step : Configuration → Step Configuration Row Lookahead) (moves : List Move)
    (last : Configuration) : Except (ParseFailure Row Lookahead) LeftParse → Prop where
  | accepted (accepts : step last = .accepted) :
      Returns step moves last (.ok (LeftParse.ofMoves moves))
  | noAction {row : Row} {lookahead : Lookahead} {place : Nat}
      (missed : step last = .failed (.noAction row lookahead place)) :
      Returns step moves last (.error (.noAction row lookahead place))
  | ambiguous {row : Row} {lookahead : Lookahead}
      (several : step last = .failed (.ambiguous row lookahead)) :
      Returns step moves last (.error (.ambiguous row lookahead))

/-- Whether a machine that starts in a configuration stops with an answer. -/
structure Terminates (step : Configuration → Step Configuration Row Lookahead)
    (configuration : Configuration) (bound : Nat)
    (answer : Except (ParseFailure Row Lookahead) LeftParse) : Prop where
  /-- Finitely many moves lead to where it answers. -/
  returns : ∃ moves last, Path step configuration moves last ∧ Returns step moves last answer
  /-- It makes fewer moves than the bound, however far it is followed. -/
  bounded : ∀ moves last, Path step configuration moves last → moves.length < bound
  /-- A budget of the bound or more is never used up. -/
  settled : ∀ budget, bound ≤ budget → (iterate step budget configuration).result = answer

variable {step : Configuration → Step Configuration Row Lookahead}
  {configuration last : Configuration} {moves : List Move}
  {answer : Except (ParseFailure Row Lookahead) LeftParse}

theorem Returns.not_moved (returns : Returns step moves last answer) (move : Move)
    (next : Configuration) : step last ≠ .moved move next := by
  cases returns with
  | accepted accepts => simp [accepts]
  | noAction missed => simp [missed]
  | ambiguous several => simp [several]

/-- A step has one outcome, so no path goes on behind the place where the machine stops. -/
theorem Path.length_le (path : Path step configuration moves last)
    (stops : ∀ move next, step last ≠ .moved move next) {others : List Move}
    {place : Configuration} (other : Path step configuration others place) :
    others.length ≤ moves.length := by
  induction path generalizing others with
  | stay configuration =>
      cases other with
      | stay => exact Nat.le_refl _
      | go moved _ => exact absurd moved (stops _ _)
  | go moved _ inductionHypothesis =>
      cases other with
      | stay => exact Nat.zero_le _
      | go otherMoved otherOnward =>
          obtain ⟨rfl, rfl⟩ := Step.moved.inj (moved.symm.trans otherMoved)
          exact Nat.succ_le_succ (inductionHypothesis stops otherOnward)

theorem Returns.result_eq (returns : Returns step moves last answer)
    (path : Path step configuration moves last) {budget : Nat} (fits : moves.length < budget) :
    (iterate step budget configuration).result = answer := by
  cases returns with
  | accepted accepts => exact result_of_accepted path fits accepts
  | noAction missed => exact result_of_failed path fits missed
  | ambiguous several => exact result_of_failed path fits several

theorem Terminates.of_path (path : Path step configuration moves last)
    (returns : Returns step moves last answer) {bound : Nat} (fits : moves.length < bound) :
    Terminates step configuration bound answer where
  returns := ⟨moves, last, path, returns⟩
  bounded := fun _ _ other =>
    Nat.lt_of_le_of_lt (path.length_le returns.not_moved other) fits
  settled := fun _ le => returns.result_eq path (Nat.lt_of_lt_of_le fits le)

end Run

namespace Grammar

variable {grammar : Grammar} {length : Nat}

section WellFormed

variable (wellFormed : grammar.WellFormed)

include wellFormed

/-- Every run of the lookahead table leads to where it accepts, misses an action or finds
several. -/
theorem WellFormed.exists_returns (length : Nat) (input : List Terminal) :
    ∃ moves last answer, Run.Path (grammar.canonicalTable length).step
        ((grammar.canonicalTable length).initial input) moves last ∧
      Run.Returns (grammar.canonicalTable length).step moves last answer := by
  obtain ⟨moves, last, path, ⟨accepts, _⟩ | ⟨failure, fails, _⟩⟩ :=
    wellFormed.parse_cases length input
  · exact ⟨moves, last, _, path, .accepted accepts⟩
  · cases failure with
    | noAction row lookahead place => exact ⟨moves, last, _, path, .noAction fails⟩
    | ambiguous row lookahead => exact ⟨moves, last, _, path, .ambiguous fails⟩
    | unfinished => exact absurd fails (wellFormed.not_unfinished path)

theorem WellFormed.parse_terminates (length : Nat) (input : List Terminal) :
    Run.Terminates (grammar.canonicalTable length).step
      ((grammar.canonicalTable length).initial input) (grammar.stepBound input.length)
      ((grammar.canonicalTable length).parse grammar input) := by
  obtain ⟨moves, last, answer, path, returns⟩ := wellFormed.exists_returns length input
  have fits : moves.length < grammar.stepBound input.length :=
    Nat.lt_of_succ_lt (wellFormed.length_lt_of_path path)
  have answered : (grammar.canonicalTable length).parse grammar input = answer :=
    returns.result_eq path fits
  rw [answered]
  exact .of_path path returns fits

/-- The buffered table stops behind every stop of the lookahead table, after at most one
change for each terminal and for the end of the input. -/
theorem WellFormed.buffered_parse_terminates (positive : 0 < length) (input : List Terminal) :
    Run.Terminates (BufferedTable.step ⟨grammar.canonicalTable length⟩)
      (BufferedTable.initial ⟨grammar.canonicalTable length⟩ input)
      (grammar.stepBound input.length + input.length + 1)
      (BufferedTable.parse grammar ⟨grammar.canonicalTable length⟩ input) := by
  obtain ⟨moves, ⟨stack, rest, position⟩, answer, path, returns⟩ :=
    wellFormed.exists_returns length input
  obtain ⟨_, _, _, represents, _⟩ := wellFormed.reads_of_path_initial path
  cases stack with
  | nil => exact absurd rfl represents.ne_nil
  | cons top below =>
      have tablePositive : 0 < (grammar.canonicalTable length).length := positive
      obtain ⟨all, loaded, buffered, same, tracks, stops⟩ :=
        LookaheadTable.exists_buffered_path tablePositive path
      have fits := wellFormed.length_lt_of_buffered_path path same tracks
      have alsoReturns : ∃ other,
          Run.Returns (BufferedTable.step ⟨grammar.canonicalTable length⟩) all loaded other := by
        cases returns with
        | accepted accepts => exact ⟨_, .accepted (stops.accepted accepts)⟩
        | noAction missed =>
            obtain ⟨row, alsoMissed⟩ := stops.missed _ _ _ missed
            exact ⟨_, .noAction alsoMissed⟩
        | ambiguous several => exact ⟨_, .ambiguous (stops.ambiguous _ _ several)⟩
      obtain ⟨other, otherReturns⟩ := alsoReturns
      have answered : BufferedTable.parse grammar ⟨grammar.canonicalTable length⟩ input = other :=
        otherReturns.result_eq buffered fits
      rw [answered]
      exact .of_path buffered otherReturns fits

end WellFormed

end Grammar

namespace LookaheadTable

/-- Whatever the input, the machines of both tables of a grammar make finitely many moves,
fewer than the budget of their runs, and then accept, miss an action or find several. -/
theorem runs_terminate {draft : Draft} {grammar : Grammar} (finished : draft.finish = .ok grammar)
    {length : Nat} (valid : ValidLookahead length) :
    ∃ table, build grammar length = .ok table ∧ ∀ input : List Terminal,
      Run.Terminates table.step (table.initial input) (grammar.stepBound input.length)
          (table.parse grammar input) ∧
        Run.Terminates (BufferedTable.step ⟨table⟩) (BufferedTable.initial ⟨table⟩ input)
          (grammar.stepBound input.length + input.length + 1)
          (BufferedTable.parse grammar ⟨table⟩ input) := by
  have wellFormed := Draft.wellFormed_of_finish finished
  refine ⟨grammar.canonicalTable length, wellFormed.build_eq valid, ?_⟩
  intro input
  exact ⟨wellFormed.parse_terminates length input,
    wellFormed.buffered_parse_terminates valid.1 input⟩

/-- With a budget beyond the bounds both machines read a pair to its end. -/
theorem runs_terminate_nestedPairs : ∃ table, build .nestedPairs 2 = .ok table ∧
    (Run.iterate table.step 1000 (table.initial [0, 1])).result = .ok ⟨[1, 2], 2, 2, 0⟩ ∧
    (Run.iterate (BufferedTable.step ⟨table⟩) 1000
      (BufferedTable.initial ⟨table⟩ [0, 1])).result = .ok ⟨[1, 2], 2, 2, 3⟩ := by
  obtain ⟨table, built, terminate⟩ :=
    runs_terminate finish_nestedPairs (by decide : ValidLookahead 2)
  obtain ⟨window, buffered⟩ := terminate [0, 1]
  have evaluated : (build .nestedPairs 2).toOption.map (fun table =>
      (table.parse .nestedPairs [0, 1], BufferedTable.parse .nestedPairs ⟨table⟩ [0, 1])) =
      some (.ok ⟨[1, 2], 2, 2, 0⟩, .ok ⟨[1, 2], 2, 2, 3⟩) := by cbv
  rw [built] at evaluated
  obtain ⟨parsed, alsoParsed⟩ := Prod.mk.inj (Option.some.inj evaluated)
  refine ⟨table, built, ?_, ?_⟩
  · rw [window.settled 1000 (by decide), parsed]
  · rw [buffered.settled 1000 (by decide), alsoParsed]

end LookaheadTable

end Predictive
