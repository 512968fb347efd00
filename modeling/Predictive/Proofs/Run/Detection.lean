import Mathlib
import Predictive.Proofs.Run.Completeness

/-!
Contract: where a missing action is noticed.

Owns: what a path of a lookahead table depends on, and the place of a missing action between
the derivable beginning of the input and the sentences that begin like it.
Does not own: that the table follows what the grammar derives.

Up to a place a run looks at no more than the lookahead length behind that place. So a word
that shares so much with the input takes the table down the same path, to the same cell.
-/

namespace Predictive

/-- Words with a common beginning have one of it in common behind any part of it. -/
theorem take_drop_congr (skipped left : Nat) {first second : List Terminal} {count : Nat}
    (same : first.take count = second.take count) (within : skipped + left ≤ count) :
    (first.drop skipped).take left = (second.drop skipped).take left := by
  have shorter : first.take (skipped + left) = second.take (skipped + left) := by
    have cut := congrArg (List.take (skipped + left)) same
    rwa [List.take_take, List.take_take, Nat.min_eq_left within] at cut
  rw [List.take_drop, List.take_drop, shorter]

namespace LookaheadTable

variable {table : LookaheadTable} {stack : List StackSymbol} {rest other : List Terminal}
  {position : Nat}

/-! ### Steps and paths under the same windows -/

/-- A move consumes as many terminals as the position advances. -/
theorem rest_of_moved {configuration next : WindowConfiguration} {move : Move}
    (moved : table.step configuration = .moved move next) :
    configuration.position ≤ next.position ∧
      next.rest = configuration.rest.drop (next.position - configuration.position) := by
  have stepped := table.steps configuration
  rw [moved] at stepped
  cases stepped with
  | pops _ => simp
  | expands _ => simp

theorem rest_of_path {configuration last : WindowConfiguration} {moves : List Move}
    (path : Run.Path table.step configuration moves last) :
    configuration.position ≤ last.position ∧
      last.rest = configuration.rest.drop (last.position - configuration.position) := by
  induction path with
  | stay configuration => simp
  | @go configuration next last move moves moved onward inductionHypothesis =>
      obtain ⟨before, consumed⟩ := rest_of_moved moved
      obtain ⟨after, onwardConsumed⟩ := inductionHypothesis
      refine ⟨before.trans after, ?_⟩
      rw [onwardConsumed, consumed, List.drop_drop]
      congr 1
      omega

/-- Under the same window the same move is made. -/
theorem step_moved_congr (same : other.take table.length = rest.take table.length) {move : Move}
    {next : WindowConfiguration}
    (moved : table.step ⟨stack, rest, position⟩ = .moved move next) :
    table.step ⟨stack, other, position⟩ =
      .moved move { next with rest := other.drop (next.position - position) } := by
  have stepped := table.steps ⟨stack, rest, position⟩
  rw [moved] at stepped
  cases stepped with
  | pops selects => simp [step, window, same, selects]
  | expands selects => simp [step, window, same, selects]

/-- Under the same window the same action is missed. -/
theorem step_noAction_congr (same : other.take table.length = rest.take table.length)
    {row : StackSymbol} {lookahead : List Terminal} {place : Nat}
    (missed : table.step ⟨stack, rest, position⟩ = .failed (.noAction row lookahead place)) :
    table.step ⟨stack, other, position⟩ = .failed (.noAction row lookahead place) := by
  have stepped := table.steps ⟨stack, rest, position⟩
  rw [missed] at stepped
  cases stepped with
  | noAction selects => simp [step, window, same, selects]

/-- A path up to a place is that of every word that agrees with the unread input up to the
lookahead length behind the place. -/
theorem path_congr {configuration last : WindowConfiguration} {moves : List Move}
    (path : Run.Path table.step configuration moves last)
    (same : other.take (last.position - configuration.position + table.length) =
      configuration.rest.take (last.position - configuration.position + table.length)) :
    Run.Path table.step { configuration with rest := other } moves
      { last with rest := other.drop (last.position - configuration.position) } := by
  induction path generalizing other with
  | stay configuration =>
      rw [Nat.sub_self, List.drop_zero]
      exact .stay _
  | @go configuration next last move moves moved onward inductionHypothesis =>
      obtain ⟨before, consumed⟩ := rest_of_moved moved
      have after := (rest_of_path onward).1
      have sameWindow : other.take table.length = configuration.rest.take table.length :=
        take_drop_congr 0 table.length same (by omega)
      have sameBehind := take_drop_congr (next.position - configuration.position)
        (last.position - next.position + table.length) same (by omega)
      rw [← consumed] at sameBehind
      have onPath := inductionHypothesis sameBehind
      rw [List.drop_drop] at onPath
      have total : next.position - configuration.position + (last.position - next.position) =
          last.position - configuration.position := by omega
      rw [total] at onPath
      exact .go (step_moved_congr sameWindow moved) onPath

end LookaheadTable

namespace Grammar

variable {grammar : Grammar} {length : Nat}

section WellFormed

variable (wellFormed : grammar.WellFormed)

include wellFormed

/-- A path of a grammar's table has consumed the beginning of a sentential form. -/
theorem WellFormed.derives_of_path {input : List Terminal} {moves : List Move}
    {last : WindowConfiguration} (path : Run.Path (grammar.canonicalTable length).step
      ((grammar.canonicalTable length).initial input) moves last) :
    last.position ≤ input.length ∧
      ∃ behind, grammar.Derives [.nonterminal grammar.start]
        (terminalString (input.take last.position) ++ behind) := by
  obtain ⟨word, form, reads, _, splits, place, _⟩ :=
    wellFormed.reads_of_path_initial path
  rw [splits, place, List.take_left, List.length_append]
  exact ⟨Nat.le_add_right _ _, form, _, reads.replay⟩

/-- No sentence begins like an input whose missing action has been noticed: the table would
miss it on the sentence too. -/
theorem WellFormed.take_ne_of_noAction (positive : 0 < length) {input : List Terminal}
    {moves : List Move} {last : WindowConfiguration}
    (path : Run.Path (grammar.canonicalTable length).step
      ((grammar.canonicalTable length).initial input) moves last)
    {row : StackSymbol} {lookahead : List Terminal} {place : Nat}
    (missed : (grammar.canonicalTable length).step last =
      .failed (.noAction row lookahead place))
    {word : List Terminal} (sentence : grammar.Generates word) :
    word.take (last.position + length) ≠ input.take (last.position + length) := by
  intro same
  obtain ⟨_, consumed⟩ := LookaheadTable.rest_of_path path
  have onWord : Run.Path (grammar.canonicalTable length).step
      ((grammar.canonicalTable length).initial word) moves
        { last with rest := word.drop last.position } :=
    LookaheadTable.path_congr path same
  have sameWindow : (word.drop last.position).take (grammar.canonicalTable length).length =
      last.rest.take (grammar.canonicalTable length).length := by
    rw [consumed]
    exact take_drop_congr last.position length same (Nat.le_refl _)
  have alsoMissed : (grammar.canonicalTable length).step
      { last with rest := word.drop last.position } = .failed (.noAction row lookahead place) :=
    LookaheadTable.step_noAction_congr sameWindow missed
  have fits := Nat.lt_of_succ_lt (wellFormed.length_lt_of_path onWord)
  have refused : (grammar.canonicalTable length).parse grammar word =
      .error (.noAction row lookahead place) := Run.result_of_failed onWord fits alsoMissed
  obtain ⟨numbers, derives⟩ := sentence
  rcases wellFormed.parse_of_isLeftParse positive derives with ⟨_, parsed, _⟩ | ⟨_, _, ambiguous⟩
  · exact absurd (parsed.symm.trans refused) (by simp)
  · exact absurd (ambiguous.symm.trans refused) (by simp)

end WellFormed

end Grammar

namespace LookaheadTable

/-- A missing action is noticed within the lookahead and never too early. What comes before
its place begins a sentential form, and no sentence agrees with the input up to the lookahead
length behind its place. -/
theorem parse_noAction_place {draft : Draft} {grammar : Grammar}
    (finished : draft.finish = .ok grammar) {length : Nat} (valid : ValidLookahead length) :
    ∃ table, build grammar length = .ok table ∧
      ∀ (input : List Terminal) (row : StackSymbol) (lookahead : List Terminal) (place : Nat),
        table.parse grammar input = .error (.noAction row lookahead place) →
          place ≤ input.length ∧
          (∃ behind, grammar.Derives [.nonterminal grammar.start]
            (terminalString (input.take place) ++ behind)) ∧
          ∀ word, grammar.Generates word →
            word.take (place + length) ≠ input.take (place + length) := by
  have wellFormed := Draft.wellFormed_of_finish finished
  refine ⟨grammar.canonicalTable length, wellFormed.build_eq valid, ?_⟩
  intro input row lookahead place refused
  obtain ⟨moves, last, path, ⟨_, parsed⟩ | ⟨failure, fails, parsed⟩⟩ :=
    wellFormed.parse_cases length input
  · exact absurd (parsed.symm.trans refused) (by simp)
  · obtain rfl := Except.error.inj (parsed.symm.trans refused)
    obtain rfl := place_of_noAction fails
    obtain ⟨within, derives⟩ := wellFormed.derives_of_path path
    exact ⟨within, derives, fun _ => wellFormed.take_ne_of_noAction valid.1 path fails⟩

/-- After the first of two opening terminals the window shows an unknown one. The one terminal
consumed begins a sentential form, and no sentence begins with the opening terminal and the
unknown one. -/
theorem parse_noAction_place_nestedPairs : ∃ table row lookahead,
    build .nestedPairs 1 = .ok table ∧
      table.parse .nestedPairs [0, 7, 1] = .error (.noAction row lookahead 1) ∧
      (∃ behind, Grammar.nestedPairs.Derives [.nonterminal 0] (.terminal 0 :: behind)) ∧
      ∀ word, Grammar.nestedPairs.Generates word → word.take 2 ≠ [0, 7] := by
  obtain ⟨table, built, places⟩ :=
    parse_noAction_place finish_nestedPairs (by decide : ValidLookahead 1)
  have evaluated : (build .nestedPairs 1).toOption.map (·.parse .nestedPairs [0, 7, 1]) =
      some (.error (.noAction (.state 1) [7] 1)) := by cbv
  rw [built] at evaluated
  have refused := Option.some.inj evaluated
  obtain ⟨_, derives, apart⟩ := places _ _ _ _ refused
  exact ⟨table, _, _, built, refused, derives, apart⟩

end LookaheadTable

end Predictive
