import Predictive.Proofs.Grammar.Draft
import Predictive.Proofs.Run.Buffered

/-!
Contract: what stands on the pushdown in every configuration of a run.

Owns: the configurations that a run passes, the shape of their pushdowns, and that the steps
of both machines keep it.
Does not own: which configurations are reached, and what they say about the input.

A state is shared by all the places at which it is pushed. What it assumes to follow it is
nevertheless FIRST of what lies below it, whichever steps have put it there. The machines keep
more than that: every state stands for an occurrence in a right context (`Represents`), and that
is what carries an expansion.
-/

namespace Predictive

namespace Run

variable {Configuration Row Lookahead : Type}
  {step : Configuration → Step Configuration Row Lookahead}

/-- The configurations that a run passes: those it leaves, then the one in which it stops. -/
def configurations (run : Run Configuration Row Lookahead) : List Configuration :=
  run.moves.map Prod.fst ++ [run.last]

theorem exists_path_of_mem_configurations {steps : Nat} {start configuration : Configuration}
    (member : configuration ∈ (iterate step steps start).configurations) :
    ∃ moves, Path step start moves configuration := by
  induction steps generalizing start with
  | zero =>
      obtain rfl : configuration = start := List.mem_singleton.mp member
      exact ⟨[], .stay configuration⟩
  | succ steps inductionHypothesis =>
      unfold configurations iterate at member
      cases stepped : step start with
      | accepted =>
          rw [stepped] at member
          obtain rfl : configuration = start := List.mem_singleton.mp member
          exact ⟨[], .stay configuration⟩
      | failed failure =>
          rw [stepped] at member
          obtain rfl : configuration = start := List.mem_singleton.mp member
          exact ⟨[], .stay configuration⟩
      | moved move next =>
          rw [stepped] at member
          rcases List.mem_cons.mp member with rfl | later
          · exact ⟨[], .stay configuration⟩
          · obtain ⟨moves, path⟩ := inductionHypothesis later
            exact ⟨move :: moves, .go stepped path⟩

/-- What every move keeps holds wherever a path leads. -/
theorem Path.keeps {start last : Configuration} {moves : List Move}
    (path : Path step start moves last) (Holds : Configuration → Prop) (initially : Holds start)
    (kept : ∀ configuration move next, Holds configuration →
      step configuration = .moved move next → Holds next) : Holds last := by
  induction path with
  | stay configuration => exact initially
  | go moved _ inductionHypothesis => exact inductionHypothesis (kept _ _ _ initially moved)

end Run

namespace LookaheadTable

/-- What a pushdown symbol stands for: a state for its nonterminal, the bottom for nothing. -/
def symbol? (table : LookaheadTable) : StackSymbol → Option Symbol
  | .state number => (table.state? number).map fun state => .nonterminal state.key.nonterminal
  | .terminal number => some (.terminal number)
  | .bottom => none

/-- The symbol string that a pushdown stands for, from its top on. -/
def symbols (table : LookaheadTable) (stack : List StackSymbol) : List Symbol :=
  stack.filterMap table.symbol?

end LookaheadTable

/-- What holds of every pushdown: it ends at its only bottom, and each state on it is one of the
table's, followed by just what the symbols below it begin with. -/
structure IsPushdown (grammar : Grammar) (table : LookaheadTable) (stack : List StackSymbol) :
    Prop where
  bottom : ∃ above, stack = above ++ [.bottom] ∧ .bottom ∉ above
  follow : ∀ above number below, stack = above ++ .state number :: below →
    ∃ state, table.state? number = some state ∧
      grammar.first (table.symbols below) table.length = .ok state.key.follow

namespace BufferedTable

variable {table : BufferedTable}

/-- A pushdown row selects nothing but what it selects in the lookahead table under some
lookahead. -/
theorem exists_selected_of_mem {top : StackSymbol} {buffer : List BufferSymbol}
    {action : BufferedAction} (member : action ∈ table.select (.stack top) buffer) :
    ∃ word selected, selected ∈ table.lookahead.select top word ∧
      carry table.length word selected = action := by
  by_cases full : buffer.length = table.length
  case neg =>
    simp [select, actionsOn, full] at member
  cases terminals : unpad? buffer with
  | none => simp [select, actionsOn, terminals] at member
  | some word =>
      have padded : pad table.length word = buffer := by
        rw [← full]
        exact pad_of_unpad? terminals
      have fits : word.length ≤ table.length := by
        have lengths := congrArg List.length padded
        simp only [pad, fill, List.length_append, List.length_map, List.length_replicate]
          at lengths
        omega
      rw [← padded, select_stack fits] at member
      obtain ⟨selected, inRow, same⟩ := List.mem_map.mp member
      exact ⟨word, selected, inRow, same⟩

/-- The rows of the input only change the buffer. -/
theorem exists_change_of_mem {row : BufferedRow} {buffer : List BufferSymbol}
    {action : BufferedAction} (ofInput : ∀ top, row ≠ .stack top)
    (member : action ∈ table.select row buffer) : ∃ target, action = .change target := by
  unfold select at member
  split at member
  · cases row with
    | stack top => exact absurd rfl (ofInput top)
    | input terminal =>
        simp only [actionsOn] at member
        split at member
        · exact ⟨_, List.mem_singleton.mp member⟩
        · exact absurd member List.not_mem_nil
    | inputEnd =>
        simp only [actionsOn] at member
        split at member
        · exact ⟨_, List.mem_singleton.mp member⟩
        · exact absurd member List.not_mem_nil
  · exact absurd member List.not_mem_nil

/-- A row whose actions do more than change the buffer is that of the pushdown's top. -/
theorem row_eq_stack {top : StackSymbol} {configuration : BufferedConfiguration}
    {buffer : List BufferSymbol} {action : BufferedAction}
    (member : action ∈ table.select (table.row top configuration) buffer)
    (noChange : ∀ target, action ≠ .change target) :
    table.row top configuration = .stack top := by
  unfold row at member ⊢
  split at member
  · obtain ⟨target, same⟩ := exists_change_of_mem (by intro other; split <;> simp) member
    exact absurd same (noChange target)
  · rename_i full
    exact if_neg full

/-- A move of the buffered machine leaves the pushdown alone, or does to it what the lookahead
table selects for its top under some lookahead. -/
theorem stack_of_moved {configuration next : BufferedConfiguration} {move : Move}
    (moved : table.step configuration = .moved move next) :
    next.stack = configuration.stack ∨
      ∃ top below word, configuration.stack = top :: below ∧
        ((.pop ∈ table.lookahead.select top word ∧ next.stack = below) ∨
          ∃ rule replacement, .expand rule replacement ∈ table.lookahead.select top word ∧
            next.stack = replacement ++ below) := by
  obtain ⟨stack, buffer, rest, position⟩ := configuration
  cases stack with
  | nil => simp [step] at moved
  | cons top below =>
      unfold step at moved
      dsimp only at moved
      split at moved
      · exact absurd moved (by simp)
      · exact absurd moved (by simp)
      · rename_i target selects
        cases moved
        have member := selects ▸ List.mem_singleton_self (BufferedAction.pop target)
        rw [row_eq_stack member (by simp)] at member
        obtain ⟨word, selected, inRow, same⟩ := exists_selected_of_mem member
        cases selected with
        | pop => exact .inr ⟨top, below, word, rfl, .inl ⟨inRow, rfl⟩⟩
        | accept => cases same
        | expand rule replacement => cases same
      · rename_i rule replacement selects
        cases moved
        have member := selects ▸ List.mem_singleton_self (BufferedAction.expand rule replacement)
        rw [row_eq_stack member (by simp)] at member
        obtain ⟨word, selected, inRow, same⟩ := exists_selected_of_mem member
        cases selected with
        | expand other pushed =>
            cases same
            exact .inr ⟨top, below, word, rfl, .inr ⟨rule, replacement, inRow, rfl⟩⟩
        | accept => cases same
        | pop => cases same
      · cases moved
        exact .inl rfl
      · exact absurd moved (by simp)

end BufferedTable

namespace Grammar

variable {grammar : Grammar} {length : Nat}

/-! ### Represented forms -/

theorem Represents.exists_bottom {stack : List StackSymbol} {form : List Symbol}
    (represents : grammar.Represents length stack form) :
    ∃ above, stack = above ++ [.bottom] ∧ .bottom ∉ above := by
  induction represents with
  | bottom => exact ⟨[], rfl, List.not_mem_nil⟩
  | terminal terminal below inductionHypothesis =>
      obtain ⟨above, rfl, none⟩ := inductionHypothesis
      exact ⟨.terminal terminal :: above, rfl, by simp [none]⟩
  | @state number _ _ _ _ _ below inductionHypothesis =>
      obtain ⟨above, rfl, none⟩ := inductionHypothesis
      exact ⟨.state number :: above, rfl, by simp [none]⟩

/-- A state on the pushdown is the one numbered for the form below it. -/
theorem Represents.state_above {above below : List StackSymbol} {number : Nat}
    {form : List Symbol}
    (represents : grammar.Represents length (above ++ .state number :: below) form) :
    ∃ nonterminal rest, (grammar.contexts length)[number]? =
        some ⟨nonterminal, grammar.beginnings length rest⟩ ∧
      grammar.Represents length below rest := by
  induction above generalizing form with
  | nil =>
      cases represents with
      | state context atNumber onBelow => exact ⟨_, _, atNumber, onBelow⟩
  | cons top above inductionHypothesis =>
      rw [List.cons_append] at represents
      generalize lower : above ++ .state number :: below = stack at represents
      cases represents with
      | bottom => exact absurd lower (by simp)
      | terminal terminal onward =>
          subst lower
          exact inductionHypothesis onward
      | state context atNumber onward =>
          subst lower
          exact inductionHypothesis onward

section WellFormed

variable (wellFormed : grammar.WellFormed)

include wellFormed

theorem WellFormed.symbols_eq {stack : List StackSymbol} {form : List Symbol}
    (represents : grammar.Represents length stack form) :
    (grammar.canonicalTable length).symbols stack = form := by
  unfold LookaheadTable.symbols
  induction represents with
  | bottom => rfl
  | terminal terminal below inductionHypothesis =>
      have standsFor : (grammar.canonicalTable length).symbol? (.terminal terminal) =
          some (.terminal terminal) := rfl
      rw [List.filterMap_cons_some standsFor, inductionHypothesis]
  | @state number nonterminal stack form context atNumber below inductionHypothesis =>
      have standsFor : (grammar.canonicalTable length).symbol? (.state number) =
          some (.nonterminal nonterminal) := by
        rw [LookaheadTable.symbol?, wellFormed.state?_canonicalTable atNumber]
        rfl
      rw [List.filterMap_cons_some standsFor, inductionHypothesis]

theorem WellFormed.isPushdown_of_represents {stack : List StackSymbol} {form : List Symbol}
    (represents : grammar.Represents length stack form) :
    IsPushdown grammar (grammar.canonicalTable length) stack where
  bottom := represents.exists_bottom
  follow := by
    rintro above number below rfl
    obtain ⟨nonterminal, rest, atNumber, onBelow⟩ := represents.state_above
    refine ⟨_, wellFormed.state?_canonicalTable atNumber, ?_⟩
    rw [wellFormed.symbols_eq onBelow]
    exact wellFormed.first_eq rest length

/-! ### Steps and runs -/

/-- A move of the buffered machine keeps a form represented. -/
theorem WellFormed.represents_of_buffered_moved {configuration next : BufferedConfiguration}
    {move : Move} (represented : ∃ form, grammar.Represents length configuration.stack form)
    (moved : BufferedTable.step ⟨grammar.canonicalTable length⟩ configuration =
      .moved move next) :
    ∃ form, grammar.Represents length next.stack form := by
  rcases BufferedTable.stack_of_moved moved with same | ⟨top, below, word, pushdown, selected⟩
  · rw [same]
    exact represented
  obtain ⟨form, represents⟩ := represented
  rw [pushdown] at represents
  rcases selected with ⟨pops, same⟩ | ⟨number, replacement, expands, same⟩
  · rcases wellFormed.action_of_represents represents pops with
      ⟨_, wrong, _⟩ | ⟨_, rest, _, _, _, onBelow⟩ | ⟨_, _, _, _, _, wrong, _⟩
    · exact absurd wrong (by simp)
    · exact ⟨rest, same ▸ onBelow⟩
    · exact absurd wrong (by simp)
  · rcases wellFormed.action_of_represents represents expands with
      ⟨_, wrong, _⟩ | ⟨_, _, _, wrong, _⟩ | ⟨rule, _, rest, pushed, _, expanded, onward⟩
    · exact absurd wrong (by simp)
    · exact absurd wrong (by simp)
    · cases expanded
      exact ⟨rule.right ++ rest, same ▸ onward⟩

theorem WellFormed.represents_of_buffered_path {input : List Terminal}
    {last : BufferedConfiguration} {moves : List Move}
    (path : Run.Path (BufferedTable.step ⟨grammar.canonicalTable length⟩)
      (BufferedTable.initial ⟨grammar.canonicalTable length⟩ input) moves last) :
    ∃ form, grammar.Represents length last.stack form := by
  apply path.keeps fun configuration =>
    ∃ form, grammar.Represents length configuration.stack form
  · exact ⟨_, wellFormed.represents_start length⟩
  · intro configuration move next represented moved
    exact wellFormed.represents_of_buffered_moved represented moved

end WellFormed

end Grammar

namespace LookaheadTable

/-- In every configuration that a run of either machine passes, whatever its input and its
budget, the pushdown ends at its only bottom, and what the key of a state on it says to follow
is FIRST of the symbols below the state. -/
theorem runs_keep_pushdown {draft : Draft} {grammar : Grammar}
    (finished : draft.finish = .ok grammar) {length : Nat} (valid : ValidLookahead length) :
    ∃ table, build grammar length = .ok table ∧ ∀ (input : List Terminal) (budget : Nat),
      (∀ configuration ∈ (Run.iterate table.step budget (table.initial input)).configurations,
        IsPushdown grammar table configuration.stack) ∧
      (∀ configuration ∈ (Run.iterate (BufferedTable.step ⟨table⟩) budget
          (BufferedTable.initial ⟨table⟩ input)).configurations,
        IsPushdown grammar table configuration.stack) := by
  have wellFormed := Draft.wellFormed_of_finish finished
  refine ⟨grammar.canonicalTable length, wellFormed.build_eq valid, ?_⟩
  intro input budget
  constructor
  · intro configuration member
    obtain ⟨moves, path⟩ := Run.exists_path_of_mem_configurations member
    obtain ⟨_, _, _, represents, _⟩ := wellFormed.reads_of_path_initial path
    exact wellFormed.isPushdown_of_represents represents
  · intro configuration member
    obtain ⟨moves, path⟩ := Run.exists_path_of_mem_configurations member
    obtain ⟨_, represents⟩ := wellFormed.represents_of_buffered_path path
    exact wellFormed.isPushdown_of_represents represents

/-- The state for the inside of a pair lies above the terminal that closes it. -/
theorem runs_keep_pushdown_nestedPairs : ∃ table, build .nestedPairs 1 = .ok table ∧
    (Run.iterate table.step 1 (table.initial [0, 1])).last.stack =
      [.terminal 0, .state 1, .terminal 1, .bottom] ∧
    ∃ state, table.state? 1 = some state ∧
      Grammar.nestedPairs.first [.terminal 1] 1 = .ok state.key.follow := by
  obtain ⟨table, built, holds⟩ :=
    runs_keep_pushdown finish_nestedPairs (by decide : ValidLookahead 1)
  have evaluated : (build .nestedPairs 1).toOption.map (fun table => (table.length,
      (Run.iterate table.step 1 (table.initial [0, 1])).last.stack)) =
      some (1, [.terminal 0, .state 1, .terminal 1, .bottom]) := by cbv
  rw [built] at evaluated
  obtain ⟨sameLength, pushdown⟩ := Prod.mk.inj (Option.some.inj evaluated)
  have passed : (Run.iterate table.step 1 (table.initial [0, 1])).last ∈
      (Run.iterate table.step 1 (table.initial [0, 1])).configurations :=
    List.mem_append_right _ (List.mem_singleton_self _)
  have isPushdown := (holds [0, 1] 1).1 _ passed
  rw [pushdown] at isPushdown
  obtain ⟨state, found, follows⟩ := isPushdown.follow [.terminal 0] 1 [.terminal 1, .bottom] rfl
  rw [sameLength] at follows
  exact ⟨table, built, pushdown, state, found, follows⟩

end LookaheadTable

end Predictive
