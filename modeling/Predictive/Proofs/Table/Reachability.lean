import Predictive.Proofs.Grammar.Draft
import Predictive.Proofs.Table.Discovering

/-!
Contract: the states of a table are what the start context leads to, each numbered behind one
that leads to it.

Owns: the keys of the states in terms of right contexts and words, and the targets of their
rows.
Does not own: what the cells of the table hold.

The discovery follows contexts rule by rule, the rows of a state are listed lookahead by
lookahead. The two agree because every rule has a lookahead: no right side of a finished
grammar is without beginnings. So they do where rows are filed in the course of the discovery.
-/

namespace Predictive

theorem occurrencesWithRest_map_fst (form : List Symbol) :
    (occurrencesWithRest form).map Prod.fst = form.filterMap Symbol.nonterminal? := by
  induction form with
  | nil => rfl
  | cons symbol form inductionHypothesis =>
      cases symbol with
      | terminal number =>
          rw [occurrencesWithRest, inductionHypothesis, List.filterMap_cons]
          rfl
      | nonterminal number =>
          rw [occurrencesWithRest, List.map_cons, inductionHypothesis, List.filterMap_cons]
          rfl

namespace Grammar

variable {grammar : Grammar} {length : Nat}

/-- What the states of a table are. The number of a state is its place, and a row is a
lookahead with the choice that it leads to. -/
structure HasReachableStates (grammar : Grammar) (length : Nat) (table : LookaheadTable) :
    Prop where
  /-- The keys are the nonterminals in their right contexts, each with FIRST of the context:
  its shorter words, and what its derivations can begin with. -/
  mem_iff : ∀ key, key ∈ table.states.map State.key ↔
    ∃ behind, grammar.RightContext key.nonterminal behind ∧
      ∀ string, string ∈ key.follow ↔ string.limit = length ∧
        ((string.terminals.length < length ∧
            grammar.Rewrites behind (terminalString string.terminals)) ∨
          (string.terminals.length = length ∧
            ∃ rest, grammar.Derives behind (terminalString string.terminals ++ rest)))
  /-- No two states have the same key. -/
  key_injective : ∀ first second state other, table.state? first = some state →
    table.state? second = some other → state.key = other.key → first = second
  /-- State 0 is that of the start symbol before the end of the input. -/
  start : (table.state? 0).map State.key =
    some ⟨grammar.start, LookaheadSet.endOfInput length⟩
  /-- Every other state is a target of a state with a lower number. -/
  preceded : ∀ number state, 0 < number → table.state? number = some state →
    ∃ earlier < number, ∃ source, table.state? earlier = some source ∧
      ∃ row ∈ source.rows, number ∈ row.2.targets
  /-- The contexts of a row are those of its rule behind which the state's strings follow. -/
  follow : ∀ state ∈ table.states, ∀ row ∈ state.rows,
    grammar.follow row.2.rule state.key.follow length = .ok row.2.contexts
  /-- There is one for each nonterminal occurrence of the rule. -/
  occurrences : ∀ state ∈ table.states, ∀ row ∈ state.rows,
    row.2.contexts.map Context.nonterminal = row.2.rule.occurrences
  /-- The targets are, one for one, the states with these contexts as keys. -/
  targets : ∀ state ∈ table.states, ∀ row ∈ state.rows,
    row.2.targets.map (fun number => (table.state? number).map State.key) =
      row.2.contexts.map some

/-! ### Choices -/

theorem choiceFor_nonterminals (key : Context) (rule : Rule) :
    (grammar.choiceFor length key rule).contexts.map Context.nonterminal = rule.occurrences := by
  rw [Rule.occurrences, ← occurrencesWithRest_map_fst]
  simp only [choiceFor, RuleProfile.contexts, contextsOf, ruleProfile, List.map_map]
  rfl

section WellFormed

variable (wellFormed : grammar.WellFormed)

include wellFormed

/-! ### Keys -/

theorem WellFormed.state?_canonicalTable_eq_some {number : Nat} {state : State}
    (found : (grammar.canonicalTable length).state? number = some state) :
    ∃ key, (grammar.contexts length)[number]? = some key ∧
      state = ⟨key, (grammar.rulesFor key.nonterminal).map (grammar.choiceFor length key)⟩ := by
  cases atNumber : (grammar.contexts length)[number]? with
  | none => simp [LookaheadTable.state?, canonicalTable, atNumber] at found
  | some key =>
      rw [wellFormed.state?_canonicalTable atNumber] at found
      exact ⟨key, rfl, (Option.some.inj found).symm⟩

omit wellFormed in
theorem map_key_canonicalTable :
    (grammar.canonicalTable length).states.map State.key = grammar.contexts length := by
  unfold canonicalTable
  rw [List.map_map]
  exact List.map_id _

omit wellFormed in
theorem key_state?_canonicalTable (number : Nat) :
    ((grammar.canonicalTable length).state? number).map State.key =
      (grammar.contexts length)[number]? := by
  rw [LookaheadTable.state?, ← List.getElem?_map, map_key_canonicalTable]

/-- A key is a nonterminal of a right context with FIRST of the context. -/
theorem WellFormed.mem_contexts_iff {key : Context} :
    key ∈ grammar.contexts length ↔
      ∃ behind, grammar.RightContext key.nonterminal behind ∧
        grammar.IsFirst length behind key.follow := by
  rw [wellFormed.mem_contexts]
  constructor
  · rintro ⟨behind, context, follows⟩
    rw [follows]
    exact ⟨behind, context, wellFormed.isFirst_beginnings length behind⟩
  · rintro ⟨behind, context, isFirst⟩
    exact ⟨behind, context, isFirst.eq (wellFormed.isFirst_beginnings length behind)⟩

/-! ### Rows -/

/-- The rows of a state are lookaheads of its rules. -/
theorem WellFormed.row_of_mem {state : State} {row : BoundedString × Choice}
    (ofTable : state ∈ (grammar.canonicalTable length).states) (ofState : row ∈ state.rows) :
    state.key ∈ grammar.contexts length ∧
      ∃ rule ∈ grammar.rulesFor state.key.nonterminal,
        row.2 = grammar.choiceFor length state.key rule := by
  obtain ⟨number, found⟩ := List.mem_iff_getElem?.mp ofTable
  obtain ⟨key, atNumber, rfl⟩ := wellFormed.state?_canonicalTable_eq_some found
  obtain ⟨choice, ofChoices, ofLookaheads⟩ := List.mem_flatMap.mp ofState
  obtain ⟨rule, ofKey, rfl⟩ := List.mem_map.mp ofChoices
  obtain ⟨string, _, rfl⟩ := List.mem_map.mp ofLookaheads
  exact ⟨List.mem_of_getElem? atNumber, rule, ofKey, rfl⟩

theorem WellFormed.targets_choiceFor {key : Context} {rule : Rule}
    (known : key ∈ grammar.contexts length) (ofKey : rule ∈ grammar.rulesFor key.nonterminal) :
    (grammar.choiceFor length key rule).targets.map
        (fun number => ((grammar.canonicalTable length).state? number).map State.key) =
      (grammar.choiceFor length key rule).contexts.map some := by
  have targets : (grammar.choiceFor length key rule).targets =
      (grammar.choiceFor length key rule).contexts.map ((grammar.contexts length).idxOf ·) := rfl
  rw [targets, List.map_map]
  apply List.map_congr_left
  intro context member
  have found := wellFormed.mem_contexts_of_choiceFor known ofKey member
  rw [Function.comp_apply, key_state?_canonicalTable]
  exact List.getElem?_idxOf found

/-- A state behind the first is a target of a row of an earlier one. -/
theorem WellFormed.exists_earlier {number : Nat} {key : Context} (positive : 0 < number)
    (atNumber : (grammar.contexts length)[number]? = some key) :
    ∃ earlier < number, ∃ source, (grammar.canonicalTable length).state? earlier = some source ∧
      ∃ row ∈ source.rows, number ∈ row.2.targets := by
  have preceded : Discovery.IsPreceded (successorContexts (grammar.profiles length) length)
      (grammar.contexts length) :=
    Discovery.explore_preceded _ 0 (Discovery.isPreceded_singleton _)
  obtain ⟨earlier, before, other, atEarlier, successor⟩ := preceded number key positive atNumber
  obtain ⟨profile, ofOther, inContexts⟩ := List.mem_flatMap.mp successor
  obtain ⟨rule, member, ofLeft, rfl⟩ := mem_profilesFor_profiles ofOther
  have ofKey : rule ∈ grammar.rulesFor other.nonterminal := mem_rulesFor.mpr ⟨member, ofLeft⟩
  obtain ⟨string, isLookahead⟩ :=
    wellFormed.exists_lookahead (List.mem_of_getElem? atEarlier) ofKey
  refine ⟨earlier, before, _, wellFormed.state?_canonicalTable atEarlier,
    (string, grammar.choiceFor length other rule), ?_, ?_⟩
  · exact List.mem_flatMap.mpr
      ⟨_, List.mem_map_of_mem ofKey, List.mem_map_of_mem isLookahead⟩
  · refine List.mem_map.mpr ⟨key, inContexts, ?_⟩
    obtain ⟨bound, rfl⟩ := List.getElem?_eq_some_iff.mp atNumber
    exact (wellFormed.contexts_complete length).nodup.idxOf_getElem number bound

theorem WellFormed.hasReachableStates (length : Nat) :
    grammar.HasReachableStates length (grammar.canonicalTable length) where
  mem_iff := by
    intro key
    rw [map_key_canonicalTable, wellFormed.mem_contexts_iff]
    simp only [IsFirst, isBeginning_iff_rewrites]
  key_injective := by
    intro first second state other atFirst atSecond same
    obtain ⟨key, keyAtFirst, rfl⟩ := wellFormed.state?_canonicalTable_eq_some atFirst
    obtain ⟨otherKey, keyAtSecond, rfl⟩ := wellFormed.state?_canonicalTable_eq_some atSecond
    obtain rfl : key = otherKey := same
    have bound := (List.getElem?_eq_some_iff.mp keyAtFirst).1
    exact (List.getElem?_inj bound (wellFormed.contexts_complete length).nodup).mp
      (keyAtFirst.trans keyAtSecond.symm)
  start := by
    rw [key_state?_canonicalTable, wellFormed.getElem?_contexts_zero, wellFormed.beginnings_nil]
  preceded := by
    intro number state positive found
    obtain ⟨key, atNumber, _⟩ := wellFormed.state?_canonicalTable_eq_some found
    exact wellFormed.exists_earlier positive atNumber
  follow := by
    intro state ofTable row ofState
    obtain ⟨_, rule, _, choice⟩ := wellFormed.row_of_mem ofTable ofState
    rw [choice]
    exact wellFormed.follow_eq length state.key rule
  occurrences := by
    intro state ofTable row ofState
    obtain ⟨_, rule, _, choice⟩ := wellFormed.row_of_mem ofTable ofState
    rw [choice]
    exact choiceFor_nonterminals state.key rule
  targets := by
    intro state ofTable row ofState
    obtain ⟨known, rule, ofKey, choice⟩ := wellFormed.row_of_mem ofTable ofState
    rw [choice]
    exact wellFormed.targets_choiceFor known ofKey

end WellFormed

/-- Discovery finds the states of a finished grammar at every length: exactly what the start
context leads to, numbered without repetition. The search that files rows and numbers targets as it
goes ends with the same states, if it may take more steps than there can be contexts. -/
theorem states_exact {draft : Draft} {grammar : Grammar} (finished : draft.finish = .ok grammar)
    {length : Nat} (valid : ValidLookahead length) :
    ∃ table, LookaheadTable.build grammar length = .ok table ∧
      grammar.states length = .ok table.states ∧ grammar.HasReachableStates length table ∧
      ∀ steps, grammar.contextBound length < steps →
        grammar.discover steps length = some (.ok (table.states.map State.found)) := by
  have wellFormed := Draft.wellFormed_of_finish finished
  refine ⟨grammar.canonicalTable length, wellFormed.build_eq valid, wellFormed.states_eq length,
    wellFormed.hasReachableStates length, ?_⟩
  intro steps enough
  exact wellFormed.discover_eq
    (Nat.lt_of_le_of_lt (wellFormed.length_contexts_le length) enough)

/-- Nested pairs have a state for the whole input and one for the inside of a pair. -/
theorem states_exact_nestedPairs : ∃ table, LookaheadTable.build nestedPairs 1 = .ok table ∧
    table.states.map (fun state => (state.key.nonterminal, state.key.follow.words)) =
      [(0, [[]]), (0, [[1]])] ∧
    nestedPairs.HasReachableStates 1 table ∧
    nestedPairs.discover 9 1 = some (.ok (table.states.map State.found)) := by
  obtain ⟨table, built, _, reachable, discovered⟩ :=
    states_exact finish_nestedPairs (by decide : ValidLookahead 1)
  have evaluated : (LookaheadTable.build nestedPairs 1).toOption.map (fun table =>
      table.states.map fun state => (state.key.nonterminal, state.key.follow.words)) =
      some [(0, [[]]), (0, [[1]])] := by cbv
  rw [built] at evaluated
  exact ⟨table, built, Option.some.inj evaluated, reachable, discovered 9 (by decide)⟩

end Grammar

end Predictive
