import Mathlib
import Predictive.Proofs.Grammar.Draft
import Predictive.Proofs.Run.Window

/-!
Contract: what the grammar derives, the lookahead table follows.

Owns: the run along a left parse, when a cell can hold several actions, and what both say
about unambiguous and deterministic tables.
Does not own: what an accepting run spells.

At every expansion the window is a beginning of the rule's right side with the form below,
since the reading goes on to the end of the input. So the cell holds the rule of the
derivation, and the run can leave the derivation only where the cell holds another one.
-/

namespace Predictive

namespace Grammar

variable {grammar : Grammar} {length : Nat}

/-! ### Selected actions -/

theorem contains_take {word : List Terminal}
    (known : ∀ terminal ∈ word, terminal < grammar.terminals.size) :
    (grammar.canonicalTable length).axis.contains (word.take length) = true := by
  rw [Axis.contains_iff]
  exact ⟨List.length_take_le length word,
    fun terminal member => known terminal (List.mem_of_mem_take member)⟩

/-- Under a window of known terminals a row selects what it holds. -/
theorem select_take {word : List Terminal}
    (known : ∀ terminal ∈ word, terminal < grammar.terminals.size) (row : StackSymbol) :
    (grammar.canonicalTable length).select row (word.take length) =
      (grammar.canonicalTable length).actionsOn row (word.take length) :=
  if_pos (contains_take known)

theorem step_bottom (below : List StackSymbol) (position : Nat) :
    (grammar.canonicalTable length).step ⟨.bottom :: below, [], position⟩ = .accepted := by
  unfold LookaheadTable.step LookaheadTable.window
  simp [LookaheadTable.select, LookaheadTable.actionsOn, Axis.contains]

theorem step_terminal (positive : 0 < length) {terminal : Terminal} {word : List Terminal}
    (known : ∀ other ∈ terminal :: word, other < grammar.terminals.size)
    (below : List StackSymbol) (position : Nat) :
    (grammar.canonicalTable length).step
        ⟨.terminal terminal :: below, terminal :: word, position⟩ =
      .moved .pop ⟨below, word, position + 1⟩ := by
  have starts : ((terminal :: word).take length).head? = some terminal := by
    rw [List.head?_take, if_neg (Nat.ne_of_gt positive)]
    rfl
  have selects : (grammar.canonicalTable length).select (.terminal terminal)
      ((terminal :: word).take length) = [.pop] := by
    rw [select_take known, LookaheadTable.actionsOn, if_pos starts]
  have window : (grammar.canonicalTable length).window
      ⟨.terminal terminal :: below, terminal :: word, position⟩ =
        (terminal :: word).take length := rfl
  simp only [LookaheadTable.step, window, selects, List.tail_cons]

section WellFormed

variable (wellFormed : grammar.WellFormed)

include wellFormed

/-- On a state the run expands by a rule whose right side goes on to read the whole input,
unless the cell holds several rules. -/
theorem WellFormed.step_state {number : Nat} {rule : Rule} {form : List Symbol}
    {below : List StackSymbol} (inRules : rule ∈ grammar.rules)
    (represents : grammar.Represents length (.state number :: below)
      (.nonterminal rule.left :: form))
    {numbers : List Nat} {word : List Terminal}
    (onward : grammar.Reads (rule.right ++ form) numbers word [])
    (known : ∀ terminal ∈ word, terminal < grammar.terminals.size) (position : Nat) :
    (∃ stack, (grammar.canonicalTable length).step ⟨.state number :: below, word, position⟩ =
        .moved (.expand rule.number) ⟨stack, word, position⟩ ∧
      grammar.Represents length stack (rule.right ++ form)) ∨
    ∃ lookahead, (grammar.canonicalTable length).step
      ⟨.state number :: below, word, position⟩ = .failed (.ambiguous (.state number) lookahead) := by
  obtain ⟨context, atNumber, onBelow⟩ : grammar.RightContext rule.left form ∧
      (grammar.contexts length)[number]? = some ⟨rule.left, grammar.beginnings length form⟩ ∧
      grammar.Represents length below form := by
    cases represents with
    | state context atNumber onBelow => exact ⟨context, atNumber, onBelow⟩
  have held : (grammar.choiceFor length ⟨rule.left, grammar.beginnings length form⟩ rule).action ∈
      (grammar.canonicalTable length).select (.state number)
        (word.take (grammar.canonicalTable length).length) := by
    show _ ∈ (grammar.canonicalTable length).select (.state number) (word.take length)
    rw [select_take known]
    exact (wellFormed.mem_actionsOn_state atNumber (context.known wellFormed).2 rfl).mpr
      ⟨rule, mem_rulesFor.mpr ⟨inRules, rfl⟩, onward.isBeginning_take length, rfl⟩
  have stepped := (grammar.canonicalTable length).steps ⟨.state number :: below, word, position⟩
  generalize (grammar.canonicalTable length).step ⟨.state number :: below, word, position⟩ = step
    at stepped ⊢
  cases stepped with
  | noAction selects => exact absurd held (by simp [selects])
  | accepts selects => exact absurd held (by simp [selects, Choice.action])
  | pops selects => exact absurd held (by simp [selects, Choice.action])
  | expands selects =>
      rw [selects, List.mem_singleton, Choice.action] at held
      obtain ⟨rfl, rfl⟩ := Action.expand.inj held
      exact .inl ⟨_, rfl, wellFormed.represents_replacement onBelow inRules context⟩
  | ambiguous several => exact .inr ⟨_, rfl⟩

/-! ### The run along a left parse -/

/-- The run follows a reading of the represented form, or stops at a cell that holds several
actions. -/
theorem WellFormed.follows_reads (positive : 0 < length) {form : List Symbol}
    {numbers : List Nat} {word : List Terminal} (reads : grammar.Reads form numbers word [])
    (known : grammar.KnowsAll form) {stack : List StackSymbol}
    (represents : grammar.Represents length stack form) (position : Nat) :
    ∃ moves last, Run.Path (grammar.canonicalTable length).step ⟨stack, word, position⟩ moves last ∧
      (((grammar.canonicalTable length).step last = .accepted ∧
          (LeftParse.ofMoves moves).rules = numbers) ∨
        ∃ row lookahead, (grammar.canonicalTable length).step last =
          .failed (.ambiguous row lookahead)) := by
  generalize nothing : ([] : List Symbol) = rest at reads
  induction reads generalizing stack position with
  | stop form =>
      subst nothing
      obtain rfl := represents_nil_iff.mp represents
      exact ⟨[], _, .stay _, .inl ⟨step_bottom [] position, rfl⟩⟩
  | @pass terminal form rest numbers word onward inductionHypothesis =>
      subst nothing
      have wordKnown := (wellFormed.known_of_reads (.pass terminal onward) known).1
      cases represents with
      | @terminal _ below _ onBelow =>
          obtain ⟨moves, last, path, stops⟩ :=
            inductionHypothesis (knowsAll_cons.mp known).2 onBelow (position + 1) rfl
          have popped := step_terminal positive wordKnown below position
          exact ⟨.pop :: moves, last, .go popped path, stops⟩
  | @expand number rule form rest numbers word found onward inductionHypothesis =>
      subst nothing
      have inRules := mem_rules_of_rule? found
      have sameNumber := wellFormed.numbered number rule found
      have rightKnown : grammar.KnowsAll (rule.right ++ form) :=
        knowsAll_append.mpr ⟨wellFormed.right_known rule inRules, (knowsAll_cons.mp known).2⟩
      have wordKnown := (wellFormed.known_of_reads onward rightKnown).1
      cases stack with
      | nil => exact absurd rfl represents.ne_nil
      | cons top below =>
          obtain ⟨state, rfl⟩ : ∃ state, top = .state state := by
            cases represents
            exact ⟨_, rfl⟩
          rcases wellFormed.step_state inRules represents onward wordKnown position with
            ⟨stack, expanded, onStack⟩ | ⟨lookahead, ambiguous⟩
          · obtain ⟨moves, last, path, stops⟩ :=
              inductionHypothesis rightKnown onStack position rfl
            refine ⟨.expand rule.number :: moves, last, .go expanded path, ?_⟩
            rcases stops with ⟨accepts, same⟩ | ambiguous
            · exact .inl ⟨accepts, by rw [← same, ← sameNumber]; rfl⟩
            · exact .inr ambiguous
          · exact ⟨[], _, .stay _, .inr ⟨_, lookahead, ambiguous⟩⟩

/-- On a word with a left parse the table answers with it or meets a cell that holds several
actions. -/
theorem WellFormed.parse_of_isLeftParse (positive : 0 < length) {numbers : List Nat}
    {word : List Terminal} (derives : grammar.IsLeftParse numbers word) :
    (∃ parse, (grammar.canonicalTable length).parse grammar word = .ok parse ∧
        parse.rules = numbers) ∨
      ∃ row lookahead, (grammar.canonicalTable length).parse grammar word =
        .error (.ambiguous row lookahead) := by
  have startKnown : grammar.KnowsAll [.nonterminal grammar.start] :=
    knowsAll_cons.mpr ⟨wellFormed.start_known, knowsAll_nil⟩
  obtain ⟨moves, last, path, stops⟩ := wellFormed.follows_reads positive
    (isLeftParse_iff_reads.mp derives) startKnown (wellFormed.represents_start length) 0
  have fits : moves.length < grammar.stepBound word.length :=
    Nat.lt_of_succ_lt (wellFormed.length_lt_of_path path)
  rcases stops with ⟨accepts, same⟩ | ⟨row, lookahead, ambiguous⟩
  · exact .inl ⟨LeftParse.ofMoves moves, Run.result_of_accepted path fits accepts, same⟩
  · exact .inr ⟨row, lookahead, Run.result_of_failed path fits ambiguous⟩

/-- A deterministic table never finds several actions, whatever the input. -/
theorem WellFormed.parse_ne_ambiguous
    (deterministic : (grammar.canonicalTable length).isDeterministic = true)
    (input : List Terminal) (row : StackSymbol) (lookahead : List Terminal) :
    (grammar.canonicalTable length).parse grammar input ≠ .error (.ambiguous row lookahead) := by
  intro ambiguous
  obtain ⟨_, last, _, ⟨_, parsed⟩ | ⟨failure, fails, parsed⟩⟩ :=
    wellFormed.parse_cases length input
  · exact absurd (parsed.symm.trans ambiguous) (by simp)
  · obtain rfl := Except.error.inj (parsed.symm.trans ambiguous)
    have several := LookaheadTable.one_lt_length_of_ambiguous fails
    have single := LookaheadTable.length_select_le deterministic row lookahead
    omega

/-- Where the table answers every derivable word with its left parse, no word has two. -/
theorem WellFormed.isLeftParse_unique (positive : 0 < length)
    (deterministic : (grammar.canonicalTable length).isDeterministic = true)
    {first second : List Nat} {word : List Terminal} (derives : grammar.IsLeftParse first word)
    (alsoDerives : grammar.IsLeftParse second word) : first = second := by
  have answer : ∀ numbers, grammar.IsLeftParse numbers word →
      ∃ parse, (grammar.canonicalTable length).parse grammar word = .ok parse ∧
        parse.rules = numbers := by
    intro numbers derived
    rcases wellFormed.parse_of_isLeftParse positive derived with parsed | ⟨row, lookahead, failed⟩
    · exact parsed
    · exact absurd failed (wellFormed.parse_ne_ambiguous deterministic word row lookahead)
  obtain ⟨firstParse, firstParsed, rfl⟩ := answer first derives
  obtain ⟨secondParse, secondParsed, rfl⟩ := answer second alsoDerives
  rw [Except.ok.inj (firstParsed.symm.trans secondParsed)]

end WellFormed

end Grammar

namespace LookaheadTable

/-- The table of a grammar finds every left parse that its conflicts do not hide: the run on
a derivable word ends with the given left parse or at a cell with several actions, which
deterministic tables do not have. So it misses an action only outside the language, and a
grammar without conflicts gives each word at most one left parse. -/
theorem parse_complete {draft : Draft} {grammar : Grammar} (finished : draft.finish = .ok grammar)
    {length : Nat} (valid : ValidLookahead length) :
    ∃ table, build grammar length = .ok table ∧
      (∀ (word : List Terminal) (numbers : List Nat), grammar.IsLeftParse numbers word →
        (∃ parse, table.parse grammar word = .ok parse ∧ parse.rules = numbers) ∨
          (table.isDeterministic = false ∧
            ∃ row lookahead, table.parse grammar word = .error (.ambiguous row lookahead))) ∧
      (table.isDeterministic = true → ∀ (word : List Terminal) (row : StackSymbol)
        (lookahead : List Terminal),
          table.parse grammar word ≠ .error (.ambiguous row lookahead)) ∧
      (∀ (word : List Terminal) (row : StackSymbol) (lookahead : List Terminal) (position : Nat),
        table.parse grammar word = .error (.noAction row lookahead position) →
          ¬grammar.Generates word) ∧
      (∀ tables, buildTables grammar length = .ok tables →
        ∀ (word : List Terminal) (first second : List Nat), grammar.IsLeftParse first word →
          grammar.IsLeftParse second word → first = second) := by
  have wellFormed := Draft.wellFormed_of_finish finished
  have built := wellFormed.build_eq valid
  refine ⟨grammar.canonicalTable length, built, ?_, wellFormed.parse_ne_ambiguous, ?_, ?_⟩
  · intro word numbers derives
    rcases wellFormed.parse_of_isLeftParse valid.1 derives with parsed | ⟨row, lookahead, failed⟩
    · exact .inl parsed
    · refine .inr ⟨?_, row, lookahead, failed⟩
      rw [← Bool.not_eq_true]
      intro deterministic
      exact wellFormed.parse_ne_ambiguous deterministic word row lookahead failed
  · rintro word row lookahead position missed ⟨numbers, derives⟩
    rcases wellFormed.parse_of_isLeftParse valid.1 derives with ⟨_, parsed, _⟩ | ⟨_, _, failed⟩
    · exact absurd (parsed.symm.trans missed) (by simp)
    · exact absurd (failed.symm.trans missed) (by simp)
  · intro tables accepted word first second derives alsoDerives
    obtain ⟨deterministic, _⟩ := (buildTables_eq_ok_iff built).mp accepted
    exact wellFormed.isLeftParse_unique valid.1 deterministic derives alsoDerives

/-- The left parse of two pairs is found, and a pair that is not opened is refused. -/
theorem parse_complete_nestedPairs : ∃ table parse,
    build .nestedPairs 2 = .ok table ∧
      Grammar.nestedPairs.IsLeftParse [1, 1, 2] [0, 0, 1, 1] ∧
      table.parse .nestedPairs [0, 0, 1, 1] = .ok parse ∧ parse.rules = [1, 1, 2] ∧
      ¬Grammar.nestedPairs.Generates [0, 1, 1] := by
  obtain ⟨table, built, complete, _, missed, _⟩ :=
    parse_complete finish_nestedPairs (by decide : ValidLookahead 2)
  have derives : Grammar.nestedPairs.IsLeftParse [1, 1, 2] [0, 0, 1, 1] := by decide
  have evaluated : (build .nestedPairs 2).toOption.map (fun table =>
      (table.isDeterministic, table.parse .nestedPairs [0, 1, 1])) =
      some (true, .error (.noAction (.state 1) [1, 1] 1)) := by cbv
  rw [built] at evaluated
  obtain ⟨deterministic, missing⟩ := Prod.mk.inj (Option.some.inj evaluated)
  rcases complete _ _ derives with ⟨parse, parsed, same⟩ | ⟨conflicting, _⟩
  · exact ⟨table, parse, built, derives, parsed, same, missed _ _ _ _ missing⟩
  · exact absurd (conflicting.symm.trans deterministic) (by simp)

end LookaheadTable

end Predictive
