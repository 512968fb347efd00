import Mathlib
import Predictive.Proofs.Grammar.Draft
import Predictive.Proofs.Run.Pushdown

/-!
Contract: a grammar has conflict-free tables exactly if it is LL at their length, where
every nonterminal derives a word.

Owns: determinism in terms of right contexts, words of productive grammars, and the LL
property of a grammar with tables.
Does not own: runs.

The table speaks about beginnings of right contexts, the LL property about words of
sentential forms. A sentential form gives a right context always; a right context gives a
sentential form, and a beginning a word, when every nonterminal derives one.
-/

namespace Predictive

namespace Grammar

variable {grammar : Grammar} {length : Nat}

/-- Whether in no right context two rules begin alike. -/
def BeginsApart (grammar : Grammar) (length : Nat) : Prop :=
  ∀ (nonterminal : Nonterminal) (behind : List Symbol), grammar.RightContext nonterminal behind →
    ∀ first ∈ grammar.rulesFor nonterminal, ∀ second ∈ grammar.rulesFor nonterminal,
    ∀ lookahead, grammar.IsBeginning length (first.right ++ behind) lookahead →
      grammar.IsBeginning length (second.right ++ behind) lookahead → first = second

theorem WellFormed.beginsApart_of_isDeterministic (wellFormed : grammar.WellFormed)
    (deterministic : (grammar.canonicalTable length).isDeterministic = true) :
    grammar.BeginsApart length := by
  intro nonterminal behind context first firstMember second secondMember lookahead firstBegins
    secondBegins
  obtain ⟨number, atNumber⟩ :=
    List.mem_iff_getElem?.mp (wellFormed.mem_contexts_of_context length context)
  have known := (context.known wellFormed).2
  have firstKnown := wellFormed.right_known first (mem_rulesFor.mp firstMember).1
  have inColumns : lookahead ∈ (grammar.axis length).columns :=
    wellFormed.mem_columns_of_beginning (knowsAll_append.mpr ⟨firstKnown, known⟩) firstBegins
  by_contra different
  have several := (wellFormed.one_lt_length_actionsOn_state atNumber known rfl).mpr
    ⟨first, firstMember, second, secondMember, different, firstBegins, secondBegins⟩
  have single := LookaheadTable.length_select_le deterministic (.state number) lookahead
  have selects : (grammar.canonicalTable length).select (.state number) lookahead =
      (grammar.canonicalTable length).actionsOn (.state number) lookahead :=
    if_pos (Axis.mem_columns.mp inColumns)
  rw [selects] at single
  omega

theorem WellFormed.isDeterministic_of_beginsApart (wellFormed : grammar.WellFormed)
    (apart : grammar.BeginsApart length) :
    (grammar.canonicalTable length).isDeterministic = true := by
  rw [LookaheadTable.isDeterministic_iff]
  intro row _ lookahead _
  cases row with
  | terminal number => exact LookaheadTable.length_actionsOn_terminal_le number lookahead
  | bottom => exact LookaheadTable.length_actionsOn_bottom_le lookahead
  | state number =>
      cases atNumber : (grammar.contexts length)[number]? with
      | none =>
          have missing : (grammar.canonicalTable length).state? number = none := by
            simp [LookaheadTable.state?, canonicalTable, atNumber]
          simp [LookaheadTable.actionsOn, missing]
      | some key =>
          obtain ⟨behind, context, follows⟩ :=
            wellFormed.mem_contexts.mp (List.mem_of_getElem? atNumber)
          apply Nat.le_of_not_lt
          intro several
          obtain ⟨first, firstMember, second, secondMember, different, firstBegins,
            secondBegins⟩ := (wellFormed.one_lt_length_actionsOn_state atNumber
              (context.known wellFormed).2 follows).mp several
          exact different (apart key.nonterminal behind context first firstMember second
            secondMember lookahead firstBegins secondBegins)

/-! ### Productive grammars -/

section Productive

variable (productive : grammar.Productive)

include productive

theorem Productive.exists_reads {form : List Symbol} (known : grammar.KnowsAll form) :
    ∃ numbers word, grammar.Reads form numbers word [] := by
  induction form with
  | nil => exact ⟨[], [], .stop []⟩
  | cons symbol form inductionHypothesis =>
      obtain ⟨headKnown, tailKnown⟩ := knowsAll_cons.mp known
      obtain ⟨numbers, word, reads⟩ := inductionHypothesis tailKnown
      cases symbol with
      | terminal terminal => exact ⟨numbers, terminal :: word, .pass terminal reads⟩
      | nonterminal nonterminal =>
          obtain ⟨front, derives⟩ := productive nonterminal headKnown
          obtain ⟨first, frontReads⟩ := derives_word_iff.mp derives
          exact ⟨first ++ numbers, front ++ word, frontReads.append reads⟩

/-- A beginning is that of a word. -/
theorem Productive.exists_word (wellFormed : grammar.WellFormed) {form : List Symbol}
    (known : grammar.KnowsAll form) {lookahead : List Terminal}
    (beginning : grammar.IsBeginning length form lookahead) :
    ∃ word, grammar.Derives form (terminalString word) ∧ word.take length = lookahead := by
  rcases isBeginning_iff_reads.mp beginning with ⟨short, numbers, reads⟩ |
    ⟨full, numbers, rest, reads⟩
  · exact ⟨lookahead, derives_word_iff.mpr ⟨numbers, reads⟩,
      List.take_of_length_le (Nat.le_of_lt short)⟩
  · obtain ⟨more, back, backReads⟩ :=
      productive.exists_reads (wellFormed.known_of_reads reads known).2
    exact ⟨lookahead ++ back, derives_word_iff.mpr ⟨numbers ++ more, reads.trans backReads⟩,
      List.take_left' full⟩

/-- Every right context stands behind the leftmost nonterminal of a sentential form. -/
theorem Productive.exists_reads_of_context (wellFormed : grammar.WellFormed)
    {nonterminal : Nonterminal} {behind : List Symbol}
    (context : grammar.RightContext nonterminal behind) :
    ∃ numbers consumed, grammar.Reads [.nonterminal grammar.start] numbers consumed
      (.nonterminal nonterminal :: behind) := by
  induction context with
  | start => exact ⟨[], [], .stop _⟩
  | @occurrence rule before behind below nonterminal outer member split inductionHypothesis =>
      obtain ⟨numbers, consumed, reads⟩ := inductionHypothesis
      obtain ⟨number, found⟩ := exists_rule?_of_mem member
      have beforeKnown : grammar.KnowsAll before := by
        have right := wellFormed.right_known rule member
        rw [split, knowsAll_append] at right
        exact right.1
      obtain ⟨erased, front, frontReads⟩ := productive.exists_reads beforeKnown
      have passed : grammar.Reads (rule.right ++ below) erased front
          (.nonterminal nonterminal :: (behind ++ below)) := by
        have within := frontReads.behind (.nonterminal nonterminal :: (behind ++ below))
        rw [split, List.append_assoc, List.cons_append]
        exact within
      exact ⟨_, _, reads.trans (.expand found passed)⟩

end Productive

/-! ### The LL property -/

theorem WellFormed.isLL_of_isDeterministic (wellFormed : grammar.WellFormed)
    (deterministic : (grammar.canonicalTable length).isDeterministic = true) :
    grammar.IsLL length := by
  intro consumed behind first second firstWord secondWord firstMember secondMember sameLeft
    reached firstDerives secondDerives alike
  obtain ⟨firstNumbers, firstReads⟩ := derives_word_iff.mp firstDerives
  obtain ⟨secondNumbers, secondReads⟩ := derives_word_iff.mp secondDerives
  have secondBegins := secondReads.isBeginning_take length
  rw [← alike] at secondBegins
  have apart := wellFormed.beginsApart_of_isDeterministic deterministic
  have same : first = second := apart first.left behind (wellFormed.context_of_derives reached) first
    (mem_rulesFor.mpr ⟨firstMember, rfl⟩) second (mem_rulesFor.mpr ⟨secondMember, sameLeft.symm⟩) (firstWord.take length)
    (firstReads.isBeginning_take length) secondBegins
  rw [same]

theorem WellFormed.isDeterministic_of_isLL (wellFormed : grammar.WellFormed)
    (productive : grammar.Productive) (isLL : grammar.IsLL length) :
    (grammar.canonicalTable length).isDeterministic = true := by
  apply wellFormed.isDeterministic_of_beginsApart
  intro nonterminal behind context first firstMember second secondMember lookahead firstBegins
    secondBegins
  obtain ⟨firstInRules, rfl⟩ := mem_rulesFor.mp firstMember
  obtain ⟨secondInRules, sameLeft⟩ := mem_rulesFor.mp secondMember
  have known := (context.known wellFormed).2
  obtain ⟨numbers, consumed, reads⟩ := productive.exists_reads_of_context wellFormed context
  obtain ⟨firstWord, firstDerives, firstTake⟩ := productive.exists_word wellFormed
    (knowsAll_append.mpr ⟨wellFormed.right_known first firstInRules, known⟩) firstBegins
  obtain ⟨secondWord, secondDerives, secondTake⟩ := productive.exists_word wellFormed
    (knowsAll_append.mpr ⟨wellFormed.right_known second secondInRules, known⟩) secondBegins
  have sameRight : first.right = second.right :=
    isLL consumed behind first second firstWord secondWord firstInRules secondInRules
      sameLeft.symm ⟨numbers, reads.replay⟩ firstDerives secondDerives
      (firstTake.trans secondTake.symm)
  exact wellFormed.distinct first firstInRules second secondInRules sameLeft.symm sameRight

/-- The check for conflicts decides the LL property: tables are built only for an LL grammar,
and they are built for every LL grammar whose nonterminals all derive words. -/
theorem buildTables_iff_isLL {draft : Draft} {grammar : Grammar}
    (finished : draft.finish = .ok grammar) {length : Nat} (valid : ValidLookahead length) :
    ((∃ tables, buildTables grammar length = .ok tables) → grammar.IsLL length) ∧
      (grammar.IsLL length → grammar.Productive →
        ∃ tables, buildTables grammar length = .ok tables) := by
  have wellFormed := Draft.wellFormed_of_finish finished
  have built := wellFormed.build_eq valid
  constructor
  · rintro ⟨tables, accepted⟩
    exact wellFormed.isLL_of_isDeterministic ((buildTables_eq_ok_iff built).mp accepted).1
  · intro isLL productive
    have deterministic := wellFormed.isDeterministic_of_isLL productive isLL
    exact ⟨_, (buildTables_eq_ok_iff built).mpr ⟨deterministic, rfl⟩⟩

/-- Nested pairs have tables with one terminal of lookahead, so they are LL(1); that every
nonterminal derives a word leads back to the tables. -/
theorem buildTables_iff_isLL_nestedPairs : nestedPairs.IsLL 1 ∧ nestedPairs.Productive ∧
    ∃ tables, buildTables nestedPairs 1 = .ok tables := by
  obtain ⟨sound, complete⟩ :=
    buildTables_iff_isLL finish_nestedPairs (by decide : ValidLookahead 1)
  have evaluated : (buildTables nestedPairs 1).toOption.isSome = true := by cbv
  have accepted : ∃ tables, buildTables nestedPairs 1 = .ok tables := by
    cases built : buildTables nestedPairs 1 with
    | error failure => simp [built, Except.toOption] at evaluated
    | ok tables => exact ⟨tables, rfl⟩
  have productive : nestedPairs.Productive := by
    intro nonterminal known
    obtain rfl := Nat.lt_one_iff.mp known
    exact ⟨[], [2], rfl⟩
  exact ⟨sound accepted, productive, complete (sound accepted) productive⟩

end Grammar

end Predictive
