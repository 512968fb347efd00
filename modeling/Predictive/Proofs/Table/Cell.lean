import Predictive.Proofs.Table.Filling
import Predictive.Proofs.Table.Reachability

/-!
Contract: what every cell of a grammar's table holds.

Owns: the right sides that states push, the actions of each row in each column, and what
conflicting cells look like.
Does not own: which contexts have states, and what a table with conflicts says about the
grammar.

A cell of a state is described twice. The rules say which expansions belong there and what they
push (`state_actions`); the rows of the state, sorted into their columns, say the same
(`state_rows`). Every row has a column (`rows_land`), so filling the cells from the rows leaves
none out (`none_skipped`).
-/

namespace Predictive

/-- Whether a pushdown string is a right side with each nonterminal occurrence replaced by its
state, when `follow` follows the left side. -/
structure IsReplacement (grammar : Grammar) (table : LookaheadTable) (follow : LookaheadSet)
    (right : List Symbol) (replacement : List StackSymbol) : Prop where
  length_eq : replacement.length = right.length
  terminal : ∀ (place : Nat) (number : Terminal), right[place]? = some (Symbol.terminal number) →
    replacement[place]? = some (StackSymbol.terminal number)
  /-- The state is the only one whose key is the context of the occurrence. -/
  nonterminal : ∀ (place : Nat) (number : Nonterminal),
    right[place]? = some (Symbol.nonterminal number) →
    ∃ behind target, grammar.first (right.drop (place + 1)) table.length = .ok behind ∧
      replacement[place]? = some (StackSymbol.state target) ∧
      ∀ other, (table.state? other).map State.key =
        some ⟨number, LookaheadSet.concat table.length behind follow⟩ ↔ other = target

/-- What the cells of a table hold, and that they hold nothing else. -/
structure HasExactCells (grammar : Grammar) (table : LookaheadTable) : Prop where
  first_eq : ∀ form,
    grammar.first form table.length = .ok (grammar.beginnings table.length form)
  /-- Under a column a state holds one expansion for each rule that FIRST of its right side,
  followed by what follows the state, admits. -/
  state_actions : ∀ number state, table.state? number = some state →
    ∃ replacement : Rule → List StackSymbol,
      (∀ rule ∈ grammar.rulesFor state.key.nonterminal,
        IsReplacement grammar table state.key.follow rule.right (replacement rule)) ∧
      ∀ column lookahead, table.axis.column? column = some lookahead →
        table.actions (.state number) column =
          ((grammar.rulesFor state.key.nonterminal).filter fun rule =>
            BoundedString.cut table.length lookahead ∈ LookaheadSet.concat table.length
              (grammar.beginnings table.length rule.right) state.key.follow).map fun rule =>
                .expand rule.number (replacement rule)
  /-- So the expansions of a cell are in the order of their numbers. -/
  rulesFor_increasing : ∀ left,
    (grammar.rulesFor left).Pairwise fun first second => first.number < second.number
  /-- The rows of a state, in their order, each in the column of its lookahead. -/
  state_rows : ∀ number state column, table.state? number = some state →
    table.actions (.state number) column =
      (state.rows.filter fun row => table.axis.index? row.1.terminals = some column).map
        fun row => row.2.action
  rows_land : table.RowsLand grammar
  /-- Filling cell by cell comes to the same actions. -/
  filled : ∀ row column,
    (Filling.ofTable grammar table).actions row column = table.actions row column
  none_skipped : (Filling.ofTable grammar table).skipped = []
  terminal_actions : ∀ terminal column lookahead, table.axis.column? column = some lookahead →
    table.actions (.terminal terminal) column =
      if lookahead.head? = some terminal then [.pop] else []
  bottom_actions : ∀ column, table.actions .bottom column =
    if column = table.axis.endColumn then [.accept] else []
  end_column : table.axis.column? table.axis.endColumn = some []
  no_other : ∀ row column, table.actions row column ≠ [] →
    row ∈ table.rows ∧ column < table.axis.columns.length
  cells_iff : ∀ cell, cell ∈ table.cells ↔
    table.axis.column? cell.column = some cell.lookahead ∧
      cell.actions = table.actions cell.row cell.column ∧ cell.actions ≠ []
  /-- Only states have conflicts, and only between expansions by different rules. -/
  conflicts : ∀ cell ∈ table.conflicts, ∃ number, cell.row = .state number ∧
    cell.actions.Pairwise fun first second => ∃ rule other pushed otherPushed, rule < other ∧
      first = .expand rule pushed ∧ second = .expand other otherPushed

namespace LookaheadSet

/-- A string of a concatenation is known by its terminals. -/
theorem hasWord_concat {limit : Nat} {left right : LookaheadSet} {word : List Terminal}
    (fits : word.length ≤ limit) :
    (concat limit left right).hasWord word =
      decide (BoundedString.cut limit word ∈ concat limit left right) := by
  rw [Bool.eq_iff_iff, hasWord, List.any_eq_true, decide_eq_true_iff]
  constructor
  · rintro ⟨string, member, spelled⟩
    have isCut := (BoundedString.eq_cut_iff fits).mpr
      ⟨limit_of_mem_concat member, beq_iff_eq.mp spelled⟩
    rwa [← isCut]
  · intro member
    refine ⟨_, member, beq_iff_eq.mpr ?_⟩
    exact List.take_of_length_le fits

end LookaheadSet

section Replacement

variable {grammar : Grammar} {table : LookaheadTable} {follow : LookaheadSet}

/-- A right side takes up one target for each of its nonterminal occurrences. -/
theorem isReplacement_stackSymbols {target : Nonterminal × List Symbol → Nat}
    {right : List Symbol}
    (exact : ∀ occurrence ∈ occurrencesWithRest right, ∃ behind,
      grammar.first occurrence.2 table.length = .ok behind ∧
        ∀ other, (table.state? other).map State.key =
          some ⟨occurrence.1, LookaheadSet.concat table.length behind follow⟩ ↔
            other = target occurrence) :
    IsReplacement grammar table follow right
      (stackSymbols right ((occurrencesWithRest right).map target)) := by
  -- A terminal takes no target, a nonterminal the first that is left; so the targets behind a
  -- symbol are those of the symbols behind it.
  induction right with
  | nil => exact ⟨rfl, by simp, by simp⟩
  | cons symbol right inductionHypothesis =>
      cases symbol with
      | terminal number =>
          have rest := inductionHypothesis exact
          refine ⟨congrArg (· + 1) rest.length_eq, ?_, ?_⟩
          · intro place other found
            cases place with
            | zero => cases found; rfl
            | succ place => exact rest.terminal place other found
          · intro place other found
            cases place with
            | zero => cases found
            | succ place => exact rest.nonterminal place other found
      | nonterminal number =>
          have rest := inductionHypothesis fun occurrence member =>
            exact occurrence (List.mem_cons_of_mem _ member)
          refine ⟨congrArg (· + 1) rest.length_eq, ?_, ?_⟩
          · intro place other found
            cases place with
            | zero => cases found
            | succ place => exact rest.terminal place other found
          · intro place other found
            cases place with
            | zero =>
                cases found
                obtain ⟨behind, first, only⟩ := exact (number, right) List.mem_cons_self
                exact ⟨behind, _, first, rfl, only⟩
            | succ place => exact rest.nonterminal place other found

end Replacement

namespace Grammar

variable {grammar : Grammar} {length : Nat}

section WellFormed

variable (wellFormed : grammar.WellFormed)

include wellFormed

theorem WellFormed.rulesFor_increasing (left : Nonterminal) :
    (grammar.rulesFor left).Pairwise fun first second => first.number < second.number := by
  apply List.Pairwise.filter
  rw [List.pairwise_iff_getElem]
  intro first second firstBound secondBound before
  rw [wellFormed.numbered (first + 1) _ (List.getElem?_eq_getElem firstBound),
    wellFormed.numbered (second + 1) _ (List.getElem?_eq_getElem secondBound)]
  exact Nat.succ_lt_succ before

/-- The place of a discovered context is the number of the one state that has it as key. -/
theorem WellFormed.key_eq_some_iff {key : Context} (known : key ∈ grammar.contexts length)
    (number : Nat) :
    ((grammar.canonicalTable length).state? number).map State.key = some key ↔
      number = (grammar.contexts length).idxOf key := by
  rw [key_state?_canonicalTable]
  have found := List.getElem?_idxOf known
  constructor
  · intro atNumber
    have bound := (List.getElem?_eq_some_iff.mp atNumber).1
    exact (List.getElem?_inj bound (wellFormed.contexts_complete length).nodup).mp
      (atNumber.trans found.symm)
  · rintro rfl
    exact found

theorem WellFormed.isReplacement_choiceFor {key : Context} {rule : Rule}
    (known : key ∈ grammar.contexts length) (ofKey : rule ∈ grammar.rulesFor key.nonterminal) :
    IsReplacement grammar (grammar.canonicalTable length) key.follow rule.right
      (grammar.choiceFor length key rule).replacement := by
  have targets : (grammar.choiceFor length key rule).targets =
      (occurrencesWithRest rule.right).map fun occurrence =>
        (grammar.contexts length).idxOf ⟨occurrence.1,
          LookaheadSet.concat length (grammar.beginnings length occurrence.2) key.follow⟩ := by
    simp only [choiceFor, RuleProfile.contexts, contextsOf, ruleProfile, List.map_map]
    rfl
  unfold Choice.replacement
  rw [targets]
  apply isReplacement_stackSymbols
  intro occurrence member
  refine ⟨grammar.beginnings length occurrence.2, wellFormed.first_eq _ _, ?_⟩
  apply wellFormed.key_eq_some_iff
  refine wellFormed.mem_contexts_of_choiceFor known ofKey ?_
  simp only [choiceFor, RuleProfile.contexts, contextsOf, ruleProfile, List.map_map]
  exact List.mem_map_of_mem member

/-- The cell of a state: an expansion for each rule that admits the column. -/
theorem WellFormed.actions_state {number column : Nat} {key : Context} {lookahead : List Terminal}
    (atNumber : (grammar.contexts length)[number]? = some key)
    (atColumn : (grammar.axis length).column? column = some lookahead) :
    (grammar.canonicalTable length).actions (.state number) column =
      ((grammar.rulesFor key.nonterminal).filter fun rule =>
        BoundedString.cut length lookahead ∈
          LookaheadSet.concat length (grammar.beginnings length rule.right) key.follow).map
        fun rule => .expand rule.number (grammar.choiceFor length key rule).replacement := by
  have fits : lookahead.length ≤ length :=
    (Axis.contains_iff.mp (Axis.mem_columns.mp (List.mem_of_getElem? atColumn))).1
  rw [LookaheadTable.actions_eq_actionsOn atColumn, wellFormed.actionsOn_state atNumber]
  have admits : ∀ rule : Rule,
      (grammar.choiceFor length key rule).lookaheads.hasWord lookahead =
        decide (BoundedString.cut length lookahead ∈
          LookaheadSet.concat length (grammar.beginnings length rule.right) key.follow) :=
    fun rule => LookaheadSet.hasWord_concat fits
  simp only [admits]
  rfl

theorem WellFormed.limit_of_lookahead {state : State}
    (ofTable : state ∈ (grammar.canonicalTable length).states) :
    ∀ choice ∈ state.choices, ∀ string ∈ choice.lookaheads, string.limit = length := by
  intro choice ofChoices string member
  obtain ⟨number, found⟩ := List.mem_iff_getElem?.mp ofTable
  obtain ⟨key, _, rfl⟩ := wellFormed.state?_canonicalTable_eq_some found
  obtain ⟨rule, _, rfl⟩ := List.mem_map.mp ofChoices
  exact LookaheadSet.limit_of_mem_concat member

/-- The rule of a row is one of the grammar, and its lookahead is a column. -/
theorem WellFormed.rowsLand (length : Nat) :
    (grammar.canonicalTable length).RowsLand grammar := by
  intro state ofTable row ofState
  obtain ⟨known, rule, ofKey, isChoice⟩ := wellFormed.row_of_mem ofTable ofState
  obtain ⟨behind, context, follows⟩ := wellFormed.mem_contexts.mp known
  have behindKnown := (context.known wellFormed).2
  have member := (mem_rulesFor.mp ofKey).1
  have admitted : row.2.lookaheads.hasWord row.1.terminals = true := by
    obtain ⟨choice, _, ofLookaheads⟩ := List.mem_flatMap.mp ofState
    obtain ⟨string, isLookahead, rfl⟩ := List.mem_map.mp ofLookaheads
    exact List.any_eq_true.mpr ⟨string, isLookahead, beq_self_eq_true _⟩
  rw [isChoice] at admitted ⊢
  have beginning := (wellFormed.hasWord_choiceFor behindKnown follows rule _).mp admitted
  have inColumns := wellFormed.mem_columns_of_beginning
    (knowsAll_append.mpr ⟨wellFormed.right_known rule member, behindKnown⟩) beginning
  obtain ⟨column, atColumn⟩ := List.mem_iff_getElem?.mp inColumns
  exact ⟨wellFormed.rule?_number member, column, Axis.index?_eq_some_iff.mpr atColumn⟩

/-- A cell with a conflict is one of a state. -/
theorem WellFormed.conflict_of_state {cell : Cell}
    (conflict : cell ∈ (grammar.canonicalTable length).conflicts) :
    ∃ number, cell.row = .state number ∧
      cell.actions.Pairwise fun first second => ∃ rule other pushed otherPushed, rule < other ∧
        first = .expand rule pushed ∧ second = .expand other otherPushed := by
  obtain ⟨isCell, two⟩ := List.mem_filter.mp conflict
  obtain ⟨atColumn, same, acts⟩ := LookaheadTable.mem_cells_iff_actions.mp isCell
  have several : 1 < cell.actions.length := of_decide_eq_true two
  rw [same] at several acts ⊢
  cases row : cell.row with
  | terminal number =>
      rw [row, LookaheadTable.actions_eq_actionsOn atColumn] at several
      exact absurd several (Nat.not_lt_of_ge (LookaheadTable.length_actionsOn_terminal_le _ _))
  | bottom =>
      rw [row, LookaheadTable.actions_eq_actionsOn atColumn] at several
      exact absurd several (Nat.not_lt_of_ge (LookaheadTable.length_actionsOn_bottom_le _))
  | state number =>
      refine ⟨number, rfl, ?_⟩
      cases atNumber : (grammar.contexts length)[number]? with
      | none =>
          have missing : (grammar.canonicalTable length).state? number = none := by
            rw [← Option.map_eq_none_iff, key_state?_canonicalTable, atNumber]
          rw [row, LookaheadTable.actions_eq_actionsOn atColumn] at acts
          simp only [LookaheadTable.actionsOn, missing] at acts
          exact absurd rfl acts
      | some key =>
          rw [wellFormed.actions_state atNumber atColumn, List.pairwise_map]
          refine ((wellFormed.rulesFor_increasing key.nonterminal).filter _).imp ?_
          intro first second before
          exact ⟨_, _, _, _, before, rfl, rfl⟩

theorem WellFormed.adds_ofTable (length : Nat) :
    Filling.empty.Adds (Filling.ofTable grammar (grammar.canonicalTable length))
      (grammar.canonicalTable length).actions :=
  Filling.adds_ofTable (wellFormed.rowsLand length) fun _ => wellFormed.limit_of_lookahead

theorem WellFormed.hasExactCells (length : Nat) :
    HasExactCells grammar (grammar.canonicalTable length) where
  first_eq form := wellFormed.first_eq form length
  state_actions := by
    intro number state found
    obtain ⟨key, atNumber, rfl⟩ := wellFormed.state?_canonicalTable_eq_some found
    have known := List.mem_of_getElem? atNumber
    refine ⟨fun rule => (grammar.choiceFor length key rule).replacement, ?_, ?_⟩
    · intro rule ofKey
      exact wellFormed.isReplacement_choiceFor known ofKey
    · intro column lookahead atColumn
      exact wellFormed.actions_state atNumber atColumn
  rulesFor_increasing := wellFormed.rulesFor_increasing
  state_rows number state column found := LookaheadTable.actions_state found
    (wellFormed.limit_of_lookahead (List.mem_of_getElem? found)) column
  rows_land := wellFormed.rowsLand length
  filled := by
    intro row column
    rw [(wellFormed.adds_ofTable length).actions_eq, Filling.actions_empty]
    exact List.nil_append _
  none_skipped := (wellFormed.adds_ofTable length).skipped_eq
  terminal_actions terminal column lookahead := LookaheadTable.actions_terminal
  bottom_actions := LookaheadTable.actions_bottom
  end_column := LookaheadTable.column?_endColumn
  no_other row column := LookaheadTable.listed_of_actions
  cells_iff cell := LookaheadTable.mem_cells_iff_actions
  conflicts cell := wellFormed.conflict_of_state

end WellFormed

end Grammar

namespace LookaheadTable

/-- The cells of a finished grammar's table hold what the rules say and nothing else. -/
theorem cells_exact {draft : Draft} {grammar : Grammar} (finished : draft.finish = .ok grammar)
    {length : Nat} (valid : ValidLookahead length) :
    ∃ table, build grammar length = .ok table ∧ table.axis = grammar.axis length ∧
      HasExactCells grammar table := by
  have wellFormed := Draft.wellFormed_of_finish finished
  exact ⟨grammar.canonicalTable length, wellFormed.build_eq valid, rfl,
    wellFormed.hasExactCells length⟩

/-- Before a pair that opens, the whole input of nested pairs is a pair around the state for the
inside of a pair; before the end it is empty. -/
theorem cells_exact_nestedPairs : ∃ table, build .nestedPairs 1 = .ok table ∧
    table.axis.columns = [[0], [1], []] ∧
    (List.range 3).map (table.actions (.state 0)) =
      [[.expand 1 [.terminal 0, .state 1, .terminal 1]], [], [.expand 2 []]] ∧
    HasExactCells .nestedPairs table := by
  obtain ⟨table, built, axis, exact⟩ :=
    cells_exact finish_nestedPairs (by decide : ValidLookahead 1)
  have evaluated : (build .nestedPairs 1).toOption.map (fun table =>
      (List.range 3).map (table.actions (.state 0))) =
      some [[.expand 1 [.terminal 0, .state 1, .terminal 1]], [], [.expand 2 []]] := by cbv
  rw [built] at evaluated
  refine ⟨table, built, ?_, Option.some.inj evaluated, exact⟩
  rw [axis]
  decide

end LookaheadTable

end Predictive
