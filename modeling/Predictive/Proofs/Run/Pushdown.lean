import Predictive.Proofs.Table.Lookahead

/-!
Contract: the pushdown stands for the unread part of a sentential form.

Owns: the relation between pushdowns and forms, and that expansions keep it.
Does not own: steps of a machine.

A state stands for its nonterminal only together with what lies below it: its context has
to hold the beginnings of the form below. That is what makes a state's choices right at
every place at which it can be pushed.
-/

namespace Predictive

namespace Grammar

/-- The pushdown holds the form above the bottom, and every state's context is that of its
occurrence in the form. -/
inductive Represents (grammar : Grammar) (length : Nat) :
    List StackSymbol → List Symbol → Prop where
  | bottom : Represents grammar length [.bottom] []
  | terminal (terminal : Terminal) {stack : List StackSymbol} {form : List Symbol}
      (below : Represents grammar length stack form) :
      Represents grammar length (.terminal terminal :: stack) (.terminal terminal :: form)
  | state {number : Nat} {nonterminal : Nonterminal} {stack : List StackSymbol}
      {form : List Symbol} (context : grammar.RightContext nonterminal form)
      (atNumber : (grammar.contexts length)[number]? =
        some ⟨nonterminal, grammar.beginnings length form⟩)
      (below : Represents grammar length stack form) :
      Represents grammar length (.state number :: stack) (.nonterminal nonterminal :: form)

variable {grammar : Grammar} {length : Nat} {stack : List StackSymbol} {form : List Symbol}

theorem represents_nil_iff : grammar.Represents length stack [] ↔ stack = [.bottom] := by
  constructor
  · intro represents
    cases represents
    rfl
  · rintro rfl
    exact .bottom

theorem Represents.ne_nil (represents : grammar.Represents length stack form) : stack ≠ [] := by
  cases represents <;> exact List.cons_ne_nil _ _

section WellFormed

variable (wellFormed : grammar.WellFormed)

include wellFormed

theorem WellFormed.represents_start (length : Nat) :
    grammar.Represents length [.state 0, .bottom] [.nonterminal grammar.start] :=
  .state .start (wellFormed.getElem?_contexts_zero length) .bottom

/-- The states of a right side's occurrences, pushed above a pushdown that represents what
stands behind the occurrence of the left side. -/
theorem WellFormed.represents_stackSymbols (represents : grammar.Represents length stack form)
    {rule : Rule} (member : rule ∈ grammar.rules) (context : grammar.RightContext rule.left form)
    (before suffix : List Symbol) (split : rule.right = before ++ suffix) :
    grammar.Represents length
      (stackSymbols suffix ((occurrencesWithRest suffix).map fun (nonterminal, rest) =>
        (grammar.contexts length).idxOf
          ⟨nonterminal, grammar.beginnings length (rest ++ form)⟩) ++ stack)
      (suffix ++ form) := by
  induction suffix generalizing before with
  | nil => exact represents
  | cons symbol suffix inductionHypothesis =>
      have onward := inductionHypothesis (before ++ [symbol]) (by simp [split])
      cases symbol with
      | terminal terminal => exact .terminal terminal onward
      | nonterminal nonterminal =>
          have inner : grammar.RightContext nonterminal (suffix ++ form) :=
            .occurrence context member split
          have discovered := wellFormed.mem_contexts_of_context length inner
          exact .state inner (List.getElem?_idxOf discovered) onward

/-- Expanding a state by a rule of its nonterminal rewrites the represented form. -/
theorem WellFormed.represents_replacement (represents : grammar.Represents length stack form)
    {rule : Rule} (member : rule ∈ grammar.rules)
    (context : grammar.RightContext rule.left form) :
    grammar.Represents length
      ((grammar.choiceFor length ⟨rule.left, grammar.beginnings length form⟩ rule).replacement
        ++ stack) (rule.right ++ form) := by
  have known := (context.known wellFormed).2
  unfold Choice.replacement choiceFor
  dsimp only
  rw [wellFormed.contexts_ruleProfile length rule known, List.map_map]
  exact wellFormed.represents_stackSymbols represents member context [] rule.right rfl

/-! ### Sentential forms -/

theorem WellFormed.represents_of_replaceLeftmost {rule : Rule} (member : rule ∈ grammar.rules)
    {next : List Symbol} (represents : grammar.Represents length stack form)
    (replaced : replaceLeftmost rule form = some next) :
    ∃ other, grammar.Represents length other next := by
  induction represents generalizing next with
  | bottom => exact absurd replaced (by simp [replaceLeftmost])
  | terminal terminal below inductionHypothesis =>
      obtain ⟨rest, onRest, rfl⟩ := Option.map_eq_some_iff.mp replaced
      obtain ⟨other, onward⟩ := inductionHypothesis onRest
      exact ⟨_, .terminal terminal onward⟩
  | @state number nonterminal stack form context atNumber below inductionHypothesis =>
      rw [replaceLeftmost] at replaced
      split at replaced
      · rename_i same
        subst same
        obtain rfl := Option.some.inj replaced
        exact ⟨_, wellFormed.represents_replacement below member context⟩
      · exact absurd replaced (by simp)

/-- Every form that a leftmost derivation passes can stand on the pushdown. -/
theorem WellFormed.represents_of_replay {numbers : List Nat} {target : List Symbol}
    (represents : grammar.Represents length stack form)
    (derived : grammar.replay numbers form = some target) :
    ∃ other, grammar.Represents length other target := by
  induction numbers generalizing stack form with
  | nil =>
      rw [← Option.some.inj derived]
      exact ⟨stack, represents⟩
  | cons number numbers inductionHypothesis =>
      simp only [replay, Option.bind_eq_bind, Option.bind_eq_some_iff] at derived
      obtain ⟨rule, found, next, replaced, onward⟩ := derived
      obtain ⟨other, onNext⟩ :=
        wellFormed.represents_of_replaceLeftmost (mem_rules_of_rule? found) represents replaced
      exact inductionHypothesis onNext onward

end WellFormed

theorem Represents.context (word : List Terminal) {nonterminal : Nonterminal}
    {behind : List Symbol} (represents : grammar.Represents length stack
      (terminalString word ++ .nonterminal nonterminal :: behind)) :
    grammar.RightContext nonterminal behind := by
  induction word generalizing stack with
  | nil =>
      cases represents with
      | state context _ _ => exact context
  | cons terminal word inductionHypothesis =>
      cases represents with
      | terminal _ below => exact inductionHypothesis below

/-- Behind the leftmost nonterminal of a sentential form stands a right context of it. -/
theorem WellFormed.context_of_derives (wellFormed : grammar.WellFormed)
    {consumed : List Terminal} {nonterminal : Nonterminal} {behind : List Symbol}
    (derives : grammar.Derives [.nonterminal grammar.start]
      (terminalString consumed ++ .nonterminal nonterminal :: behind)) :
    grammar.RightContext nonterminal behind := by
  obtain ⟨numbers, derived⟩ := derives
  obtain ⟨_, represents⟩ :=
    wellFormed.represents_of_replay (wellFormed.represents_start 0) derived
  exact represents.context consumed

end Grammar

end Predictive
