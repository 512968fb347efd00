import Predictive.Run.Basic

/-!
Contract: a run is a path of moves to where the machine stops.

Owns: paths of a step function, and their agreement with iterated steps.
Does not own: any particular machine.

A run's budget appears here only. Everything else argues about paths, which have none, and
then shows that paths are shorter than the budget.
-/

namespace Predictive

namespace Run

variable {Configuration Row Lookahead : Type}

/-- The moves lead from one configuration to another. -/
inductive Path (step : Configuration → Step Configuration Row Lookahead) :
    Configuration → List Move → Configuration → Prop where
  | stay (configuration : Configuration) : Path step configuration [] configuration
  | go {configuration next last : Configuration} {move : Move} {moves : List Move}
      (moved : step configuration = .moved move next) (onward : Path step next moves last) :
      Path step configuration (move :: moves) last

variable {step : Configuration → Step Configuration Row Lookahead}
  {configuration last : Configuration} {moves : List Move} {steps : Nat}

theorem Path.trans {middle : Configuration} {first second : List Move}
    (front : Path step configuration first middle) (back : Path step middle second last) :
    Path step configuration (first ++ second) last := by
  induction front with
  | stay configuration => exact back
  | go moved onward inductionHypothesis => exact .go moved (inductionHypothesis back)

theorem Path.single {move : Move} (moved : step configuration = .moved move last) :
    Path step configuration [move] last :=
  .go moved (.stay last)

/-! ### Paths with room in the budget -/

/-- Within its budget an iteration does what a path does. -/
theorem iterate_path (path : Path step configuration moves last) (extra : Nat) :
    (iterate step (moves.length + extra) configuration).failure =
        (iterate step extra last).failure ∧
      (iterate step (moves.length + extra) configuration).moves.map Prod.snd =
        moves ++ (iterate step extra last).moves.map Prod.snd := by
  induction path with
  | stay configuration => simp
  | @go configuration next last move moves moved onward inductionHypothesis =>
      obtain ⟨sameFailure, sameMoves⟩ := inductionHypothesis
      have budget : (move :: moves).length + extra = moves.length + extra + 1 := by
        simp only [List.length_cons]
        omega
      rw [budget]
      simp only [iterate, moved]
      exact ⟨sameFailure, by rw [List.map_cons, sameMoves, List.cons_append]⟩

theorem result_of_accepted (path : Path step configuration moves last)
    (fits : moves.length < steps) (accepts : step last = .accepted) :
    (iterate step steps configuration).result = .ok (LeftParse.ofMoves moves) := by
  obtain ⟨extra, rfl⟩ := Nat.exists_eq_add_of_lt fits
  obtain ⟨sameFailure, sameMoves⟩ := iterate_path path (extra + 1)
  rw [Nat.add_assoc, result, sameFailure, sameMoves]
  simp [iterate, accepts]

theorem result_of_failed (path : Path step configuration moves last)
    (fits : moves.length < steps) {failure : ParseFailure Row Lookahead}
    (fails : step last = .failed failure) :
    (iterate step steps configuration).result = .error failure := by
  obtain ⟨extra, rfl⟩ := Nat.exists_eq_add_of_lt fits
  obtain ⟨sameFailure, _⟩ := iterate_path path (extra + 1)
  rw [Nat.add_assoc, result, sameFailure]
  simp [iterate, fails]

/-! ### Where an iteration stops -/

/-- An iteration follows a path to where the machine accepts or fails, or to the end of its
budget. -/
theorem exists_path (step : Configuration → Step Configuration Row Lookahead) (steps : Nat)
    (configuration : Configuration) :
    ∃ moves last, Path step configuration moves last ∧
      ((moves.length < steps ∧ step last = .accepted) ∨
        (moves.length < steps ∧ ∃ failure, step last = .failed failure) ∨
        moves.length = steps) := by
  induction steps generalizing configuration with
  | zero => exact ⟨[], configuration, .stay configuration, .inr (.inr rfl)⟩
  | succ steps inductionHypothesis =>
      cases stepped : step configuration with
      | accepted =>
          exact ⟨[], configuration, .stay configuration, .inl ⟨Nat.succ_pos steps, stepped⟩⟩
      | failed failure =>
          exact ⟨[], configuration, .stay configuration,
            .inr (.inl ⟨Nat.succ_pos steps, failure, stepped⟩)⟩
      | moved move next =>
          obtain ⟨moves, last, path, stops⟩ := inductionHypothesis next
          refine ⟨move :: moves, last, .go stepped path, ?_⟩
          rw [List.length_cons, Nat.add_lt_add_iff_right, Nat.add_right_cancel_iff]
          exact stops

end Run

theorem LeftParse.expansions_ofMoves (moves : List Move) :
    (LeftParse.ofMoves moves).expansions = (LeftParse.ofMoves moves).rules.length := by
  simp only [LeftParse.ofMoves, List.length_filterMap_eq_countP]

theorem LeftParse.pops_ofMoves_pop (moves : List Move) :
    (LeftParse.ofMoves (.pop :: moves)).pops = (LeftParse.ofMoves moves).pops + 1 := by
  have isPop : Move.pop.isPop = true := rfl
  exact List.countP_cons_of_pos isPop

theorem Move.one_kind (move : Move) :
    (if move.rule?.isSome then 1 else 0) + (if move.isPop then 1 else 0)
      + (if move.isChange then 1 else 0) = 1 := by
  cases move <;> rfl

/-- Every move is an expansion, a pop or a change. -/
theorem LeftParse.length_moves (moves : List Move) :
    moves.length = (LeftParse.ofMoves moves).expansions + (LeftParse.ofMoves moves).pops
      + (LeftParse.ofMoves moves).changes := by
  unfold LeftParse.ofMoves
  induction moves with
  | nil => rfl
  | cons move moves inductionHypothesis =>
      have kind := move.one_kind
      dsimp only at inductionHypothesis ⊢
      rw [List.length_cons, List.countP_cons, List.countP_cons, List.countP_cons]
      omega

theorem filter_changes {changes : List Move}
    (areChanges : ∀ change ∈ changes, change.isChange = true) :
    (changes.filter fun move => !move.isChange) = [] := by
  rw [List.filter_eq_nil_iff]
  intro change member
  simp [areChanges change member]

/-- Changes spell nothing: they are only counted. -/
theorem LeftParse.ofMoves_filter (moves : List Move) :
    LeftParse.ofMoves moves =
      { LeftParse.ofMoves (moves.filter fun move => !move.isChange) with
        changes := moves.countP Move.isChange } := by
  have rules : (moves.filter fun move => !move.isChange).filterMap Move.rule? =
      moves.filterMap Move.rule? := by
    rw [List.filterMap_filter]
    congr 1
    funext move
    cases move <;> rfl
  have expansions : (moves.filter fun move => !move.isChange).countP (·.rule?.isSome) =
      moves.countP (·.rule?.isSome) := by
    rw [List.countP_filter]
    congr 1
    funext move
    cases move <;> rfl
  have pops : (moves.filter fun move => !move.isChange).countP Move.isPop =
      moves.countP Move.isPop := by
    rw [List.countP_filter]
    congr 1
    funext move
    cases move <;> rfl
  simp only [LeftParse.ofMoves, rules, expansions, pops]

end Predictive
