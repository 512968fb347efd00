import Predictive.Proofs.Grammar.History
import Predictive.Proofs.GrammarText.Written

/-!
Contract: the events of a written grammar rebuild its rules in the order of the text.

Owns: the rules of a written grammar by name, and the replay of one written rule and of all.
Does not own: what else a draft must satisfy to be a grammar.

The alternatives of a rule arrive last first, are held, and leave in reverse, so a rule that
meets a draft with nothing held leaves one again (`applyAll_ruleEvents`). That is what keeps an
alternative from reaching the left side of another rule.
-/

namespace Predictive.GrammarText

/-! ### Rules by name -/

/-- The rules that the alternatives of a written rule stand for, in the order of the text. -/
def WrittenRule.namedUnder (declared : List String) (rule : WrittenRule) : List NamedRule :=
  rule.alternatives.map fun alternative =>
    ⟨rule.left, alternative.map (·.namedUnder declared)⟩

namespace WrittenGrammar

def namedRules (grammar : WrittenGrammar) : List NamedRule :=
  grammar.rules.flatMap (·.namedUnder grammar.declared)

/-- The first rule in the text whose left side is declared as a terminal. -/
def firstWithTerminalLeft? (grammar : WrittenGrammar) : Option WrittenRule :=
  grammar.rules.find? fun rule => rule.left ∈ grammar.declared

/-- Whether every rule has an alternative, if only an empty one. -/
def HasAlternatives (grammar : WrittenGrammar) : Prop :=
  ∀ rule ∈ grammar.rules, rule.alternatives ≠ []

/-- The reader completes no rule before its first alternative. -/
theorem hasAlternatives_of_ofTokens {tokenized : Tokenized} {grammar : WrittenGrammar}
    (read : ofTokens tokenized = .ok grammar) : grammar.HasAlternatives := by
  obtain ⟨_, _, some_alternative, _⟩ := ((isAnswer_ofTokens tokenized).eq_ok_iff grammar).mp read
  exact some_alternative

end WrittenGrammar

/-! ### One written rule -/

section Replay

variable {draft : Draft} {rule : WrittenRule}

/-- Alternatives are held, those that come later in front. -/
theorem applyAll_alternatives (draft : Draft) (alternatives : List (List WrittenSymbol)) :
    draft.applyAll (alternatives.map .alternative) = .ok { draft with
      held := (alternatives.map (·.map (·.namedUnder draft.declared))).reverse ++ draft.held } := by
  induction alternatives generalizing draft with
  | nil => rfl
  | cons first later inductionHypothesis =>
      show (draft.hold first).applyAll (later.map .alternative) = _
      rw [inductionHypothesis]
      simp [Draft.hold, Draft.map_resolve]

/-- The held alternatives follow the first one in the order of the text, and none stays. A left
side that is declared is found when the first one arrives. -/
theorem applyAll_ruleEvents (some_alternative : rule.alternatives ≠ [])
    (nothing_held : draft.held = []) :
    draft.applyAll (WrittenGrammar.ruleEvents rule) =
      if rule.left ∈ draft.declared then .error (.terminalOnLeft rule.left)
      else .ok { draft with rules := draft.rules ++ rule.namedUnder draft.declared } := by
  unfold WrittenGrammar.ruleEvents WrittenRule.namedUnder
  cases alternatives : rule.alternatives with
  | nil => exact absurd alternatives some_alternative
  | cons first later =>
      obtain ⟨holding, held, declared_same, rules_same, held_later⟩ : ∃ holding : Draft,
          draft.applyAll (later.reverse.map .alternative) = .ok holding ∧
            holding.declared = draft.declared ∧ holding.rules = draft.rules ∧
            holding.held = later.map (·.map (·.namedUnder draft.declared)) := by
        refine ⟨_, applyAll_alternatives draft later.reverse, rfl, rfl, ?_⟩
        simp [nothing_held]
      dsimp only
      rw [Draft.applyAll_append, held, Except.bind, Draft.applyAll_singleton]
      by_cases declared : rule.left ∈ holding.declared
      · have terminal := WrittenSymbol.isTerminalUnder_name_iff.mpr declared
        rw [Draft.apply_rule_of_isTerminal holding terminal, if_pos (declared_same ▸ declared)]
        rfl
      · have nonterminal := mt WrittenSymbol.isTerminalUnder_name_iff.mp declared
        rw [Draft.apply_rule_of_not_isTerminal holding nonterminal,
          if_neg (declared_same ▸ declared)]
        simp [declared_same, rules_same, held_later, nothing_held, WrittenSymbol.text]

/-! ### All rules -/

/-- By induction on the rules: each leaves a draft with nothing held to the next. -/
theorem applyAll_rules (rules : List WrittenRule)
    (some_alternative : ∀ rule ∈ rules, rule.alternatives ≠ []) (nothing_held : draft.held = []) :
    draft.applyAll (rules.flatMap WrittenGrammar.ruleEvents) =
      match rules.find? (fun rule => rule.left ∈ draft.declared) with
      | some rule => .error (.terminalOnLeft rule.left)
      | none => .ok { draft with
          rules := draft.rules ++ rules.flatMap (·.namedUnder draft.declared) } := by
  induction rules generalizing draft with
  | nil => simp [Draft.applyAll]; rfl
  | cons rule rules inductionHypothesis =>
      rw [List.flatMap_cons, Draft.applyAll_append,
        applyAll_ruleEvents (some_alternative rule List.mem_cons_self) nothing_held]
      by_cases declared : rule.left ∈ draft.declared
      · rw [if_pos declared, List.find?_cons, decide_eq_true declared]
        rfl
      · have onward := @inductionHypothesis
          { draft with rules := draft.rules ++ rule.namedUnder draft.declared }
          (fun later member => some_alternative later (List.mem_cons_of_mem _ member)) nothing_held
        rw [if_neg declared, List.find?_cons, decide_eq_false declared]
        apply onward.trans
        simp only [List.flatMap_cons, List.append_assoc]

end Replay

namespace WrittenGrammar

/-- What is read leaves no alternative without a left side. -/
theorem held_eq_nil_of_ofTokens {tokenized : Tokenized} {grammar : WrittenGrammar} {draft : Draft}
    (read : ofTokens tokenized = .ok grammar)
    (fed : Draft.empty.applyAll grammar.events = .ok draft) : draft.held = [] := by
  have outcome := @applyAll_rules (Draft.empty.declare grammar.declared) grammar.rules
    (hasAlternatives_of_ofTokens read) rfl
  have same := fed.symm.trans outcome
  split at same
  · exact absurd same (by simp)
  · cases same
    rfl

/-- The events of a written grammar give its rules in the order of the text with nothing held,
or name the first left side in the text that is a terminal. -/
theorem applyAll_events {grammar : WrittenGrammar} (alternatives : grammar.HasAlternatives) :
    Draft.empty.applyAll grammar.events =
      match grammar.firstWithTerminalLeft? with
      | some rule => .error (.terminalOnLeft rule.left)
      | none => .ok ⟨grammar.declared, grammar.namedRules, []⟩ := by
  show (Draft.empty.declare grammar.declared).applyAll (grammar.rules.flatMap ruleEvents) = _
  rw [applyAll_rules grammar.rules alternatives rfl]
  rfl

/-- `S : a S b | ; T : S | a | 'c' ;` behind declarations of some names. -/
def twoRules (declared : List String) : WrittenGrammar :=
  ⟨declared, [⟨"S", [[.name "a", .name "S", .name "b"], []]⟩,
    ⟨"T", [[.name "S"], [.name "a"], [.literal "c"]]⟩]⟩

theorem hasAlternatives_twoRules (declared : List String) :
    (twoRules declared).HasAlternatives := by
  simp [HasAlternatives, twoRules]

theorem applyAll_events_twoRules :
    Draft.empty.applyAll (twoRules ["a", "b"]).events =
        .ok ⟨["a", "b"],
          [⟨"S", [.terminal "a", .nonterminal "S", .terminal "b"]⟩, ⟨"S", []⟩,
            ⟨"T", [.nonterminal "S"]⟩, ⟨"T", [.terminal "a"]⟩, ⟨"T", [.terminal "c"]⟩], []⟩ ∧
      Draft.empty.applyAll (twoRules ["T", "S"]).events = .error (.terminalOnLeft "S") :=
  ⟨(applyAll_events (hasAlternatives_twoRules _)).trans (by rfl),
    (applyAll_events (hasAlternatives_twoRules _)).trans (by rfl)⟩

end WrittenGrammar

end Predictive.GrammarText
