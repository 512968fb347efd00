import Predictive.Proofs.Grammar.DerivationLength
import Predictive.Proofs.Run.Basic
import Predictive.Proofs.Run.Pushdown
import Predictive.Run.Window

/-!
Contract: runs of the lookahead table are readings of the start symbol.

Owns: the steps of any table by the actions selected, the steps of a grammar's own table by
the represented form, and that its runs stop within their budget.
Does not own: which inputs are accepted.
-/

namespace Predictive

namespace LookaheadTable

/-- What a step does, by what the top selects. -/
inductive Steps (table : LookaheadTable) :
    WindowConfiguration → Step WindowConfiguration StackSymbol (List Terminal) → Prop where
  | unfinished {rest : List Terminal} {position : Nat} :
      Steps table ⟨[], rest, position⟩ (.failed .unfinished)
  | noAction {top : StackSymbol} {below : List StackSymbol} {rest : List Terminal}
      {position : Nat} (selects : table.select top (rest.take table.length) = []) :
      Steps table ⟨top :: below, rest, position⟩
        (.failed (.noAction top (rest.take table.length) position))
  | accepts {top : StackSymbol} {below : List StackSymbol} {rest : List Terminal}
      {position : Nat} (selects : table.select top (rest.take table.length) = [.accept]) :
      Steps table ⟨top :: below, rest, position⟩ .accepted
  | pops {top : StackSymbol} {below : List StackSymbol} {rest : List Terminal}
      {position : Nat} (selects : table.select top (rest.take table.length) = [.pop]) :
      Steps table ⟨top :: below, rest, position⟩ (.moved .pop ⟨below, rest.tail, position + 1⟩)
  | expands {top : StackSymbol} {below replacement : List StackSymbol} {rest : List Terminal}
      {position rule : Nat}
      (selects : table.select top (rest.take table.length) = [.expand rule replacement]) :
      Steps table ⟨top :: below, rest, position⟩
        (.moved (.expand rule) ⟨replacement ++ below, rest, position⟩)
  | ambiguous {top : StackSymbol} {below : List StackSymbol} {rest : List Terminal}
      {position : Nat} (several : 1 < (table.select top (rest.take table.length)).length) :
      Steps table ⟨top :: below, rest, position⟩
        (.failed (.ambiguous top (rest.take table.length)))

/-- A step rewritten to what it is known to do leaves only the selections that do it. -/
theorem steps (table : LookaheadTable) (configuration : WindowConfiguration) :
    table.Steps configuration (table.step configuration) := by
  obtain ⟨stack, rest, position⟩ := configuration
  cases stack with
  | nil => exact .unfinished
  | cons top below =>
      unfold step window
      dsimp only
      match actions : table.select top (rest.take table.length) with
      | [] => exact .noAction actions
      | [.accept] => exact .accepts actions
      | [.pop] => exact .pops actions
      | [.expand rule replacement] => exact .expands actions
      | first :: second :: more =>
          have several : 1 < (table.select top (rest.take table.length)).length := by
            simp [actions]
          cases first <;> exact .ambiguous several

theorem one_lt_length_of_ambiguous {table : LookaheadTable}
    {configuration : WindowConfiguration} {row : StackSymbol} {lookahead : List Terminal}
    (ambiguous : table.step configuration = .failed (.ambiguous row lookahead)) :
    1 < (table.select row lookahead).length := by
  have stepped := table.steps configuration
  rw [ambiguous] at stepped
  cases stepped with
  | ambiguous several => exact several

theorem place_of_noAction {table : LookaheadTable} {configuration : WindowConfiguration}
    {row : StackSymbol} {lookahead : List Terminal} {place : Nat}
    (missed : table.step configuration = .failed (.noAction row lookahead place)) :
    place = configuration.position := by
  have stepped := table.steps configuration
  rw [missed] at stepped
  cases stepped with
  | noAction _ => rfl

theorem actionsOn_of_mem_select {table : LookaheadTable} {row : StackSymbol}
    {lookahead : List Terminal} {action : Action} (member : action ∈ table.select row lookahead) :
    action ∈ table.actionsOn row lookahead := by
  have selects : table.select row lookahead ≠ [] := List.ne_nil_of_mem member
  rwa [(mem_columns_of_select selects).2] at member

theorem mem_actionsOn_terminal {table : LookaheadTable} {number : Terminal}
    {lookahead : List Terminal} {action : Action} :
    action ∈ table.actionsOn (.terminal number) lookahead ↔
      action = .pop ∧ lookahead.head? = some number := by
  simp only [actionsOn]
  split <;> simp [*]

theorem mem_actionsOn_bottom {table : LookaheadTable} {lookahead : List Terminal}
    {action : Action} :
    action ∈ table.actionsOn .bottom lookahead ↔ action = .accept ∧ lookahead = [] := by
  simp only [actionsOn, List.isEmpty_iff]
  split <;> simp [*]

/-- A window that starts with a terminal is cut from an input that does. -/
theorem eq_cons_of_head?_take {rest : List Terminal} {count : Nat} {terminal : Terminal}
    (starts : (rest.take count).head? = some terminal) : rest = terminal :: rest.tail := by
  rw [List.head?_take] at starts
  split at starts
  · exact absurd starts (by simp)
  · exact List.eq_cons_of_mem_head? starts

end LookaheadTable

namespace Grammar

variable {grammar : Grammar} {length : Nat}

section WellFormed

variable (wellFormed : grammar.WellFormed)

include wellFormed

/-! ### Single steps -/

/-- The rows of a represented form hold nothing but what the form's first symbol asks for. -/
theorem WellFormed.action_of_represents {top : StackSymbol} {below : List StackSymbol}
    {form : List Symbol} (represents : grammar.Represents length (top :: below) form)
    {lookahead : List Terminal} {action : Action}
    (member : action ∈ (grammar.canonicalTable length).select top lookahead) :
    (form = [] ∧ action = .accept ∧ lookahead = []) ∨
    (∃ terminal rest, form = .terminal terminal :: rest ∧ action = .pop ∧
      lookahead.head? = some terminal ∧ grammar.Represents length below rest) ∨
    (∃ rule ∈ grammar.rules, ∃ rest replacement, form = .nonterminal rule.left :: rest ∧
      action = .expand rule.number replacement ∧
      grammar.Represents length (replacement ++ below) (rule.right ++ rest)) := by
  have held := LookaheadTable.actionsOn_of_mem_select member
  cases represents with
  | bottom =>
      obtain ⟨accepts, empty⟩ := LookaheadTable.mem_actionsOn_bottom.mp held
      exact .inl ⟨rfl, accepts, empty⟩
  | terminal terminal onBelow =>
      obtain ⟨pops, starts⟩ := LookaheadTable.mem_actionsOn_terminal.mp held
      exact .inr (.inl ⟨terminal, _, rfl, pops, starts, onBelow⟩)
  | @state number nonterminal stack form context atNumber onBelow =>
      have known := (context.known wellFormed).2
      obtain ⟨rule, ofNonterminal, _, expands⟩ :=
        (wellFormed.mem_actionsOn_state atNumber known rfl).mp held
      obtain ⟨inRules, rfl⟩ := mem_rulesFor.mp ofNonterminal
      exact .inr (.inr ⟨rule, inRules, form, _, rfl, expands,
        wellFormed.represents_replacement onBelow inRules context⟩)

/-- A move passes the first terminal of the represented form or expands its first
nonterminal. -/
theorem WellFormed.moved_of_represents {configuration next : WindowConfiguration}
    {form : List Symbol} (represents : grammar.Represents length configuration.stack form)
    {move : Move} (moved : (grammar.canonicalTable length).step configuration = .moved move next) :
    (∃ terminal rest, form = .terminal terminal :: rest ∧ move = .pop ∧
      configuration.rest = terminal :: next.rest ∧ next.position = configuration.position + 1 ∧
      grammar.Represents length next.stack rest) ∨
    (∃ rule ∈ grammar.rules, ∃ rest, form = .nonterminal rule.left :: rest ∧
      move = .expand rule.number ∧ next.rest = configuration.rest ∧
      next.position = configuration.position ∧
      grammar.Represents length next.stack (rule.right ++ rest)) := by
  have stepped := (grammar.canonicalTable length).steps configuration
  rw [moved] at stepped
  cases stepped with
  | pops selects =>
      rcases wellFormed.action_of_represents represents (selects ▸ List.mem_singleton_self _) with
        ⟨_, wrong, _⟩ | ⟨terminal, rest, rfl, _, starts, onBelow⟩ | ⟨_, _, _, _, _, wrong, _⟩
      · exact absurd wrong (by simp)
      · exact .inl ⟨terminal, rest, rfl, rfl, LookaheadTable.eq_cons_of_head?_take starts, rfl,
          onBelow⟩
      · exact absurd wrong (by simp)
  | expands selects =>
      rcases wellFormed.action_of_represents represents (selects ▸ List.mem_singleton_self _) with
        ⟨_, wrong, _⟩ | ⟨_, _, _, wrong, _⟩ | ⟨rule, inRules, rest, pushed, rfl, same, onward⟩
      · exact absurd wrong (by simp)
      · exact absurd wrong (by simp)
      · obtain ⟨rfl, rfl⟩ := Action.expand.inj same
        exact .inr ⟨rule, inRules, rest, rfl, rfl, rfl, rfl, onward⟩

/-- A represented form is accepted only when it and the input are both used up. -/
theorem WellFormed.accepted_of_represents {configuration : WindowConfiguration}
    {form : List Symbol} (positive : 0 < length)
    (represents : grammar.Represents length configuration.stack form)
    (accepts : (grammar.canonicalTable length).step configuration = .accepted) :
    form = [] ∧ configuration.rest = [] := by
  have stepped := (grammar.canonicalTable length).steps configuration
  rw [accepts] at stepped
  cases stepped with
  | accepts selects =>
      rcases wellFormed.action_of_represents represents (selects ▸ List.mem_singleton_self _) with
        ⟨rfl, _, empty⟩ | ⟨_, _, _, wrong, _⟩ | ⟨_, _, _, _, _, wrong, _⟩
      · refine ⟨rfl, ?_⟩
        rcases List.take_eq_nil_iff.mp empty with zero | nothing
        · exact absurd zero (Nat.ne_of_gt positive)
        · exact nothing
      · exact absurd wrong (by simp)
      · exact absurd wrong (by simp)

/-! ### Paths -/

/-- Along a path the expansions read the represented form: the pops pass what is consumed,
and the form that is left is represented at the end. -/
theorem WellFormed.reads_of_path {configuration last : WindowConfiguration} {moves : List Move}
    {form : List Symbol} (represents : grammar.Represents length configuration.stack form)
    (path : Run.Path (grammar.canonicalTable length).step configuration moves last) :
    ∃ word rest, grammar.Reads form (LeftParse.ofMoves moves).rules word rest ∧
      grammar.Represents length last.stack rest ∧ configuration.rest = word ++ last.rest ∧
      last.position = configuration.position + word.length ∧
      (LeftParse.ofMoves moves).pops = word.length ∧ (LeftParse.ofMoves moves).changes = 0 := by
  induction path generalizing form with
  | stay configuration => exact ⟨[], form, .stop form, represents, rfl, rfl, rfl, rfl⟩
  | @go configuration next last move moves moved onward inductionHypothesis =>
      rcases wellFormed.moved_of_represents represents moved with
        ⟨terminal, behind, rfl, rfl, consumes, advances, onNext⟩ |
        ⟨rule, inRules, behind, rfl, rfl, keeps, stays, onNext⟩
      · obtain ⟨word, rest, reads, onLast, splits, position, pops, changes⟩ :=
          inductionHypothesis onNext
        refine ⟨terminal :: word, rest, .pass terminal reads, onLast, ?_, ?_, ?_, changes⟩
        · rw [consumes, splits, List.cons_append]
        · rw [position, advances, List.length_cons]
          omega
        · rw [List.length_cons, ← pops]
          exact LeftParse.pops_ofMoves_pop moves
      · obtain ⟨word, rest, reads, onLast, splits, position, pops, changes⟩ :=
          inductionHypothesis onNext
        have found := wellFormed.rule?_number inRules
        refine ⟨word, rest, .expand found reads, onLast, ?_, ?_, pops, changes⟩
        · rw [← keeps, splits]
        · rw [position, stays]

/-- A path from the start of an input has read the start symbol as far as it has come. -/
theorem WellFormed.reads_of_path_initial {input : List Terminal} {last : WindowConfiguration}
    {moves : List Move} (path : Run.Path (grammar.canonicalTable length).step
      ((grammar.canonicalTable length).initial input) moves last) :
    ∃ word rest, grammar.Reads [.nonterminal grammar.start] (LeftParse.ofMoves moves).rules word
        rest ∧
      grammar.Represents length last.stack rest ∧ input = word ++ last.rest ∧
      last.position = word.length ∧
      (LeftParse.ofMoves moves).pops = word.length ∧ (LeftParse.ofMoves moves).changes = 0 := by
  obtain ⟨word, rest, reads, represents, splits, place, counts⟩ :=
    wellFormed.reads_of_path (wellFormed.represents_start length) path
  have fromStart : last.position = 0 + word.length := place
  rw [Nat.zero_add] at fromStart
  exact ⟨word, rest, reads, represents, splits, fromStart, counts⟩

/-- A path from the start of an input stays within the budget. -/
theorem WellFormed.length_lt_of_path {input : List Terminal} {last : WindowConfiguration}
    {moves : List Move} (path : Run.Path (grammar.canonicalTable length).step
      ((grammar.canonicalTable length).initial input) moves last) :
    moves.length + 1 < grammar.stepBound input.length := by
  obtain ⟨word, rest, reads, _, splits, _, pops, changes⟩ :=
    wellFormed.reads_of_path_initial path
  have fits : word.length ≤ input.length := by
    rw [splits, List.length_append]
    exact Nat.le_add_right _ _
  have bound := wellFormed.length_lt_stepBound reads fits
  rw [LeftParse.length_moves, pops, changes, LeftParse.expansions_ofMoves]
  omega

theorem WellFormed.not_unfinished {input : List Terminal} {last : WindowConfiguration}
    {moves : List Move} (path : Run.Path (grammar.canonicalTable length).step
      ((grammar.canonicalTable length).initial input) moves last) :
    (grammar.canonicalTable length).step last ≠ .failed .unfinished := by
  obtain ⟨_, _, _, represents, _⟩ := wellFormed.reads_of_path_initial path
  intro unfinished
  have stepped := (grammar.canonicalTable length).steps last
  rw [unfinished] at stepped
  cases stepped with
  | unfinished => exact represents.ne_nil rfl

/-- Every input leads to a configuration where the table accepts, holds no action or holds
several, and parsing answers with that. -/
theorem WellFormed.parse_cases (length : Nat) (input : List Terminal) :
    ∃ moves last, Run.Path (grammar.canonicalTable length).step
        ((grammar.canonicalTable length).initial input) moves last ∧
      (((grammar.canonicalTable length).step last = .accepted ∧
          (grammar.canonicalTable length).parse grammar input = .ok (LeftParse.ofMoves moves)) ∨
        ∃ failure, (grammar.canonicalTable length).step last = .failed failure ∧
          (grammar.canonicalTable length).parse grammar input = .error failure) := by
  obtain ⟨moves, last, path, stops⟩ := Run.exists_path (grammar.canonicalTable length).step
    (grammar.stepBound input.length) ((grammar.canonicalTable length).initial input)
  have within := wellFormed.length_lt_of_path path
  refine ⟨moves, last, path, ?_⟩
  rcases stops with ⟨fits, accepts⟩ | ⟨fits, failure, fails⟩ | exhausted
  · exact .inl ⟨accepts, Run.result_of_accepted path fits accepts⟩
  · exact .inr ⟨failure, fails, Run.result_of_failed path fits fails⟩
  · omega

end WellFormed

end Grammar

end Predictive
