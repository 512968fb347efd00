import Predictive.Proofs.Table.State
import Predictive.Table.Buffered

/-!
Contract: what the cells of a lookahead table hold, and when it has conflicts.

Owns: conflicts of any table in terms of its actions, the table that building gives, and
the actions of its states in terms of beginnings.
Does not own: runs, and what conflicts say about the grammar.

The cell of a state under a lookahead holds one expansion for every rule of the state's
nonterminal whose right side, in front of what the state stands for, begins with the
lookahead (`mem_actionsOn_state`).
-/

namespace Predictive

namespace LookaheadTable

variable {table : LookaheadTable}

/-! ### Cells and conflicts of any table -/

theorem mem_cellsOf {columns : List (List Terminal × Nat)} {row : StackSymbol}
    {actionsOn : List Terminal → List Action} {cell : Cell} :
    cell ∈ cellsOf columns row actionsOn ↔ ∃ lookahead column,
      (lookahead, column) ∈ columns ∧ actionsOn lookahead ≠ [] ∧
        cell = ⟨row, column, lookahead, actionsOn lookahead⟩ := by
  unfold cellsOf
  rw [List.mem_filterMap]
  constructor
  · rintro ⟨⟨lookahead, column⟩, member, made⟩
    dsimp only at made
    split at made
    · exact absurd made (by simp)
    · rename_i action more actions
      refine ⟨lookahead, column, member, by simp [actions], ?_⟩
      rw [actions]
      exact (Option.some.inj made).symm
  · rintro ⟨lookahead, column, member, some_action, rfl⟩
    refine ⟨(lookahead, column), member, ?_⟩
    dsimp only
    split
    · rename_i none
      exact absurd none some_action
    · rename_i action more actions
      rw [actions]

theorem mem_cells {cell : Cell} :
    cell ∈ table.cells ↔ ∃ row ∈ table.rows, ∃ lookahead column,
      (lookahead, column) ∈ table.axis.columns.zipIdx ∧ table.actionsOn row lookahead ≠ [] ∧
        cell = ⟨row, column, lookahead, table.actionsOn row lookahead⟩ := by
  rw [cells_eq]
  simp only [List.mem_flatMap, mem_cellsOf]

/-- A table is deterministic if no row holds two actions under a column. -/
theorem isDeterministic_iff : table.isDeterministic = true ↔
    ∀ row ∈ table.rows, ∀ lookahead ∈ table.axis.columns,
      (table.actionsOn row lookahead).length ≤ 1 := by
  unfold isDeterministic
  rw [List.all_eq_true]
  constructor
  · intro each row rowMember lookahead inColumns
    by_cases none : table.actionsOn row lookahead = []
    · simp [none]
    · obtain ⟨column, place⟩ := List.mem_iff_getElem?.mp inColumns
      have cell := each ⟨row, column, lookahead, table.actionsOn row lookahead⟩
        (mem_cells.mpr ⟨row, rowMember, lookahead, column,
          List.mem_zipIdx_iff_getElem?.mpr place, none, rfl⟩)
      simpa using cell
  · intro each cell member
    obtain ⟨row, rowMember, lookahead, column, inColumns, _, rfl⟩ := mem_cells.mp member
    simpa using each row rowMember lookahead
      (List.mem_of_getElem? (List.mem_zipIdx_iff_getElem?.mp inColumns))

theorem conflicts_eq_nil_iff : table.conflicts = [] ↔ table.isDeterministic = true := by
  unfold conflicts isDeterministic
  rw [List.filter_eq_nil_iff, List.all_eq_true]
  simp

theorem ensureDeterministic_eq_ok_iff :
    table.ensureDeterministic = .ok () ↔ table.isDeterministic = true := by
  rw [← conflicts_eq_nil_iff, ensureDeterministic]
  by_cases none : table.conflicts = []
  · simp [none]
  · have positive := List.length_pos_iff.mpr none
    simp [none, positive]

theorem length_actionsOn_terminal_le (number : Terminal) (lookahead : List Terminal) :
    (table.actionsOn (.terminal number) lookahead).length ≤ 1 := by
  simp only [actionsOn]
  split <;> simp

theorem length_actionsOn_bottom_le (lookahead : List Terminal) :
    (table.actionsOn .bottom lookahead).length ≤ 1 := by
  simp only [actionsOn]
  split <;> simp

/-- A row that holds an action under a column is listed. -/
theorem mem_rows_of_actionsOn {row : StackSymbol}
    {lookahead : List Terminal} (held : table.axis.contains lookahead = true)
    (acts : table.actionsOn row lookahead ≠ []) : row ∈ table.rows := by
  unfold rows
  cases row with
  | bottom => simp
  | terminal number =>
      simp only [actionsOn] at acts
      split at acts
      · rename_i first
        have known : number < table.terminals :=
          (Axis.contains_iff.mp held).2 number (List.mem_of_head? first)
        simp [known]
      · exact absurd rfl acts
  | state number =>
      cases found : table.state? number with
      | none => simp [actionsOn, found] at acts
      | some state =>
          have bound := (List.getElem?_eq_some_iff.mp found).1
          simp [bound]

/-- What a row selects is what it holds, under a column; under no other lookahead does it
select anything. -/
theorem mem_columns_of_select {row : StackSymbol} {lookahead : List Terminal}
    (selects : table.select row lookahead ≠ []) :
    lookahead ∈ table.axis.columns ∧
      table.select row lookahead = table.actionsOn row lookahead := by
  unfold select at selects ⊢
  split at selects
  · rename_i inside
    exact ⟨Axis.mem_columns.mpr inside, if_pos inside⟩
  · exact absurd rfl selects

/-- In a deterministic table every row, be it listed or not, selects at most one action. -/
theorem length_select_le (deterministic : table.isDeterministic = true) (row : StackSymbol)
    (lookahead : List Terminal) : (table.select row lookahead).length ≤ 1 := by
  by_cases selects : table.select row lookahead = []
  · rw [selects]
    exact Nat.zero_le 1
  · obtain ⟨inColumns, same⟩ := mem_columns_of_select selects
    rw [same]
    cases row with
    | terminal number => exact length_actionsOn_terminal_le number lookahead
    | bottom => exact length_actionsOn_bottom_le lookahead
    | state number =>
        by_cases bound : number < table.states.length
        · have listed : .state number ∈ table.rows := by
            simp [rows, bound]
          exact isDeterministic_iff.mp deterministic _ listed lookahead inColumns
        · have missing : table.state? number = none :=
            List.getElem?_eq_none (Nat.le_of_not_lt bound)
          simp [actionsOn, missing]

end LookaheadTable

theorem buildTables_eq_ok_iff {grammar : Grammar} {length : Nat} {table : LookaheadTable}
    (built : LookaheadTable.build grammar length = .ok table)
    {tables : LookaheadTable × BufferedTable} :
    buildTables grammar length = .ok tables ↔
      table.isDeterministic = true ∧ tables = (table, ⟨table⟩) := by
  rw [← LookaheadTable.ensureDeterministic_eq_ok_iff]
  unfold buildTables
  rw [built]
  cases checked : table.ensureDeterministic with
  | error failure => simp [bind, Except.bind, checked]
  | ok passed =>
      simp only [bind, Except.bind, checked, pure, Except.pure, Except.ok.injEq, true_and]
      exact eq_comm

namespace Grammar

variable {grammar : Grammar}

/-! ### The table of a grammar -/

/-- What a state with a key does with a rule. -/
def choiceFor (grammar : Grammar) (length : Nat) (key : Context) (rule : Rule) : Choice where
  rule := rule
  lookaheads := (grammar.ruleProfile length rule).lookaheads length key.follow
  contexts := (grammar.ruleProfile length rule).contexts length key.follow
  targets := ((grammar.ruleProfile length rule).contexts length key.follow).map
    ((grammar.contexts length).idxOf ·)

/-- The table that building gives for a well-formed grammar. -/
def canonicalTable (grammar : Grammar) (length : Nat) : LookaheadTable where
  axis := grammar.axis length
  states := (grammar.contexts length).map
    (stateOf (grammar.profiles length) length (grammar.contexts length))

theorem nodup_rules (numbered : ∀ number rule, grammar.rule? number = some rule →
    rule.number = number) : grammar.rules.Nodup := by
  rw [List.Nodup, List.pairwise_iff_getElem]
  intro first second firstBound secondBound before same
  have atFirst := numbered (first + 1) grammar.rules[first]
    (List.getElem?_eq_getElem firstBound)
  have atSecond := numbered (second + 1) grammar.rules[second]
    (List.getElem?_eq_getElem secondBound)
  rw [same] at atFirst
  omega

section WellFormed

variable (wellFormed : grammar.WellFormed)

include wellFormed

theorem WellFormed.build_eq {length : Nat} (valid : ValidLookahead length) :
    LookaheadTable.build grammar length = .ok (grammar.canonicalTable length) := by
  unfold LookaheadTable.build
  rw [if_pos valid, wellFormed.states_eq]
  rfl

theorem WellFormed.state?_canonicalTable {length number : Nat} {key : Context}
    (atNumber : (grammar.contexts length)[number]? = some key) :
    (grammar.canonicalTable length).state? number =
      some ⟨key, (grammar.rulesFor key.nonterminal).map (grammar.choiceFor length key)⟩ := by
  obtain ⟨behind, context, _⟩ := wellFormed.mem_contexts.mp (List.mem_of_getElem? atNumber)
  unfold LookaheadTable.state? canonicalTable
  rw [List.getElem?_map, atNumber, Option.map_some, stateOf,
    profilesFor_profiles (wellFormed.reachable_of_context context), List.map_map]
  rfl

theorem WellFormed.actionsOn_state {length number : Nat} {key : Context}
    (atNumber : (grammar.contexts length)[number]? = some key) (lookahead : List Terminal) :
    (grammar.canonicalTable length).actionsOn (.state number) lookahead =
      ((grammar.rulesFor key.nonterminal).filter fun rule =>
        (grammar.choiceFor length key rule).lookaheads.hasWord lookahead).map fun rule =>
          (grammar.choiceFor length key rule).action := by
  simp only [LookaheadTable.actionsOn, wellFormed.state?_canonicalTable atNumber,
    State.actionsOn, List.filter_map, List.map_map]
  rfl

/-- A rule is chosen under the beginnings of its right side with what stands below. -/
theorem WellFormed.hasWord_choiceFor {length : Nat} {key : Context} {below : List Symbol}
    (known : grammar.KnowsAll below) (follows : key.follow = grammar.beginnings length below)
    (rule : Rule) (lookahead : List Terminal) :
    (grammar.choiceFor length key rule).lookaheads.hasWord lookahead = true ↔
      grammar.IsBeginning length (rule.right ++ below) lookahead := by
  have lookaheads : (grammar.choiceFor length key rule).lookaheads =
      grammar.beginnings length (rule.right ++ below) := by
    unfold choiceFor RuleProfile.lookaheads ruleProfile
    rw [follows]
    exact wellFormed.concat_beginnings length rule.right known
  rw [lookaheads, LookaheadSet.hasWord, List.any_eq_true,
    ← wellFormed.hasWord_beginnings length (rule.right ++ below) lookahead]
  simp only [beq_iff_eq, LookaheadSet.mem_strings]

theorem WellFormed.mem_actionsOn_state {length number : Nat} {key : Context}
    (atNumber : (grammar.contexts length)[number]? = some key) {below : List Symbol}
    (known : grammar.KnowsAll below) (follows : key.follow = grammar.beginnings length below)
    {lookahead : List Terminal} {action : Action} :
    action ∈ (grammar.canonicalTable length).actionsOn (.state number) lookahead ↔
      ∃ rule ∈ grammar.rulesFor key.nonterminal,
        grammar.IsBeginning length (rule.right ++ below) lookahead ∧
          action = (grammar.choiceFor length key rule).action := by
  rw [wellFormed.actionsOn_state atNumber, List.mem_map]
  simp only [List.mem_filter, wellFormed.hasWord_choiceFor known follows, and_assoc]
  constructor
  · rintro ⟨rule, member, beginning, rfl⟩
    exact ⟨rule, member, beginning, rfl⟩
  · rintro ⟨rule, member, beginning, rfl⟩
    exact ⟨rule, member, beginning, rfl⟩

/-- A state holds two actions exactly if two rules of its nonterminal begin alike. -/
theorem WellFormed.one_lt_length_actionsOn_state {length number : Nat} {key : Context}
    (atNumber : (grammar.contexts length)[number]? = some key) {below : List Symbol}
    (known : grammar.KnowsAll below) (follows : key.follow = grammar.beginnings length below)
    {lookahead : List Terminal} :
    1 < ((grammar.canonicalTable length).actionsOn (.state number) lookahead).length ↔
      ∃ first ∈ grammar.rulesFor key.nonterminal, ∃ second ∈ grammar.rulesFor key.nonterminal,
        first ≠ second ∧ grammar.IsBeginning length (first.right ++ below) lookahead ∧
          grammar.IsBeginning length (second.right ++ below) lookahead := by
  rw [wellFormed.actionsOn_state atNumber, List.length_map]
  have admitted : ∀ rule, rule ∈ ((grammar.rulesFor key.nonterminal).filter fun rule =>
        (grammar.choiceFor length key rule).lookaheads.hasWord lookahead) ↔
      rule ∈ grammar.rulesFor key.nonterminal ∧
        grammar.IsBeginning length (rule.right ++ below) lookahead := by
    intro rule
    rw [List.mem_filter, wellFormed.hasWord_choiceFor known follows]
  have nodup : ((grammar.rulesFor key.nonterminal).filter fun rule =>
      (grammar.choiceFor length key rule).lookaheads.hasWord lookahead).Nodup :=
    ((nodup_rules wellFormed.numbered).filter _).filter _
  generalize ((grammar.rulesFor key.nonterminal).filter fun rule =>
    (grammar.choiceFor length key rule).lookaheads.hasWord lookahead) = rules at admitted nodup
  constructor
  · intro two
    match rules, two with
    | first :: second :: _, _ =>
        obtain ⟨different, _⟩ := List.nodup_cons.mp nodup
        obtain ⟨firstMember, firstBegins⟩ := (admitted first).mp (by simp)
        obtain ⟨secondMember, secondBegins⟩ := (admitted second).mp (by simp)
        refine ⟨first, firstMember, second, secondMember, ?_, firstBegins, secondBegins⟩
        rintro rfl
        exact different (by simp)
  · rintro ⟨first, firstMember, second, secondMember, different, firstBegins, secondBegins⟩
    have hasFirst := (admitted first).mpr ⟨firstMember, firstBegins⟩
    have hasSecond := (admitted second).mpr ⟨secondMember, secondBegins⟩
    match rules, hasFirst, hasSecond with
    | [_], inFirst, inSecond =>
        rw [List.mem_singleton] at inFirst inSecond
        exact absurd (inFirst.trans inSecond.symm) different
    | _ :: _ :: _, _, _ => simp

/-! ### Contexts and lookaheads of rules -/

theorem WellFormed.follow_eq (length : Nat) (key : Context) (rule : Rule) :
    grammar.follow rule key.follow length = .ok (grammar.choiceFor length key rule).contexts := by
  rw [follow, wellFormed.trailing_eq]
  rfl

/-- The contexts of a discovered context's rules are discovered. -/
theorem WellFormed.mem_contexts_of_choiceFor {length : Nat} {key context : Context}
    {rule : Rule} (known : key ∈ grammar.contexts length)
    (ofKey : rule ∈ grammar.rulesFor key.nonterminal)
    (member : context ∈ (grammar.choiceFor length key rule).contexts) :
    context ∈ grammar.contexts length := by
  have complete := wellFormed.contexts_complete length
  obtain ⟨behind, isContext, _⟩ := wellFormed.mem_contexts.mp known
  refine (complete.mem_iff _).mpr (((complete.mem_iff key).mp known).tail ?_)
  refine List.mem_flatMap.mpr ⟨grammar.ruleProfile length rule, ?_, member⟩
  rw [profilesFor_profiles (wellFormed.reachable_of_context isContext)]
  exact List.mem_map_of_mem ofKey

/-- A rule of a discovered context has a lookahead. -/
theorem WellFormed.exists_lookahead {length : Nat} {key : Context} {rule : Rule}
    (known : key ∈ grammar.contexts length) (ofKey : rule ∈ grammar.rulesFor key.nonterminal) :
    ∃ string, string ∈ (grammar.choiceFor length key rule).lookaheads := by
  obtain ⟨behind, isContext, follows⟩ := wellFormed.mem_contexts.mp known
  have behindKnown := (isContext.known wellFormed).2
  have rightKnown := wellFormed.right_known rule (mem_rulesFor.mp ofKey).1
  obtain ⟨word, beginning⟩ := wellFormed.exists_isBeginning
    (knowsAll_append.mpr ⟨rightKnown, behindKnown⟩) length
  have admitted := (wellFormed.hasWord_choiceFor behindKnown follows rule word).mpr beginning
  obtain ⟨string, member, _⟩ := List.any_eq_true.mp admitted
  exact ⟨string, member⟩

end WellFormed

end Grammar

end Predictive
