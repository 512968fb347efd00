import Mathlib.Data.List.Induction
import Predictive.Proofs.Grammar.Draft
import Predictive.Proofs.Grammar.LeftCorner

/-!
Contract: finishing a draft reports exactly the first thing that is wrong with it.

Owns: what is wrong with named rules, in terms of the rules as they were given, and the
agreement of derivations by name with derivations by number.
Does not own: what a finished grammar is good for.

The checks look at names, only the last one at the numbered grammar. Numbering keeps the names
of one kind apart, so that a rewriting of numbered symbols is one of named symbols and the
other way round (`beginsWithItself_iff`).
-/

namespace Predictive

namespace Draft

/-! ### Derivations by name -/

/-- One rule applied to one occurrence of its left side. -/
inductive RewritesOnce (rules : List NamedRule) : List NamedSymbol → List NamedSymbol → Prop where
  | expand {rule : NamedRule} (member : rule ∈ rules) (before behind : List NamedSymbol) :
      RewritesOnce rules (before ++ .nonterminal rule.left :: behind)
        (before ++ (rule.right ++ behind))

/-- Whether a nonterminal rewrites, in at least one step, to a form that begins with it. -/
def BeginsWithItself (rules : List NamedRule) (name : String) : Prop :=
  ∃ rest, Relation.TransGen (RewritesOnce rules) [.nonterminal name] (.nonterminal name :: rest)

variable {rules : List NamedRule}

theorem RewritesOnce.number {form next : List NamedSymbol} (rewrites : RewritesOnce rules form next) :
    (Grammar.ofNamedRules rules).RewritesOnce
      (form.map (Grammar.ofNamedRules rules).numberSymbol)
      (next.map (Grammar.ofNamedRules rules).numberSymbol) := by
  cases rewrites with
  | @expand rule member before behind =>
      obtain ⟨index, atIndex⟩ := List.mem_iff_getElem?.mp member
      have numbered := (Grammar.mem_rules_ofNamedRules rules _).mpr ⟨index, rule, atIndex, rfl⟩
      simp only [List.map_append, List.map_cons]
      exact .expand numbered _ _

/-- A rewriting of numbered symbols is the numbering of one by name. -/
theorem exists_rewritesOnce_of_number {form : List NamedSymbol} {target : List Symbol}
    (rewrites : (Grammar.ofNamedRules rules).RewritesOnce
      (form.map (Grammar.ofNamedRules rules).numberSymbol) target) :
    ∃ next, RewritesOnce rules form next ∧
      target = next.map (Grammar.ofNamedRules rules).numberSymbol := by
  generalize whole : form.map (Grammar.ofNamedRules rules).numberSymbol = numbered at rewrites
  cases rewrites with
  | @expand rule member before behind =>
      obtain ⟨index, named, atIndex, rfl⟩ := (Grammar.mem_rules_ofNamedRules rules rule).mp member
      have namedMember := List.mem_of_getElem? atIndex
      obtain ⟨front, back, rfl, rfl, cut⟩ := List.map_eq_append_iff.mp whole
      obtain ⟨symbol, behind, rfl, head, rfl⟩ := List.map_eq_cons_iff.mp cut
      have isLeft : NamedSymbol.nonterminal named.left = symbol :=
        Grammar.eq_of_numberSymbol_eq (Grammar.names_left rules namedMember) head.symm
      subst isLeft
      refine ⟨front ++ (named.right ++ behind), .expand namedMember front behind, ?_⟩
      simp [Grammar.numberRule]

theorem exists_rewrites_of_number {form : List NamedSymbol} {target : List Symbol}
    (rewrites : Relation.TransGen (Grammar.ofNamedRules rules).RewritesOnce
      (form.map (Grammar.ofNamedRules rules).numberSymbol) target) :
    ∃ next, Relation.TransGen (RewritesOnce rules) form next ∧
      target = next.map (Grammar.ofNamedRules rules).numberSymbol := by
  induction rewrites with
  | single once =>
      obtain ⟨next, named, rfl⟩ := exists_rewritesOnce_of_number once
      exact ⟨next, .single named, rfl⟩
  | tail _ once inductionHypothesis =>
      obtain ⟨middle, namedBefore, rfl⟩ := inductionHypothesis
      obtain ⟨next, named, rfl⟩ := exists_rewritesOnce_of_number once
      exact ⟨next, namedBefore.tail named, rfl⟩

/-- A name begins with itself exactly when its number does. -/
theorem beginsWithItself_iff {name : String}
    (known : name ∈ (Grammar.ofNamedRules rules).nonterminals.names) :
    BeginsWithItself rules name ↔ (Grammar.ofNamedRules rules).BeginsWith
      ((Grammar.ofNamedRules rules).nonterminals.index name)
      ((Grammar.ofNamedRules rules).nonterminals.index name) := by
  constructor
  · rintro ⟨rest, rewrites⟩
    exact ⟨rest.map (Grammar.ofNamedRules rules).numberSymbol,
      rewrites.lift (List.map (Grammar.ofNamedRules rules).numberSymbol)
        fun _ _ once => RewritesOnce.number once⟩
  · rintro ⟨rest, rewrites⟩
    have numbered : Relation.TransGen (Grammar.ofNamedRules rules).RewritesOnce
        ([NamedSymbol.nonterminal name].map (Grammar.ofNamedRules rules).numberSymbol) _ := rewrites
    obtain ⟨next, named, same⟩ := exists_rewrites_of_number numbered
    obtain ⟨symbol, behind, rfl, head, rfl⟩ := List.map_eq_cons_iff.mp same.symm
    have isName : NamedSymbol.nonterminal name = symbol :=
      Grammar.eq_of_numberSymbol_eq known head.symm
    subst isName
    exact ⟨behind, named⟩

/-- Only the left side of a rule begins with itself. -/
theorem BeginsWithItself.mem_names {name : String} (itself : BeginsWithItself rules name) :
    name ∈ (Grammar.ofNamedRules rules).nonterminals.names := by
  obtain ⟨rest, rewrites⟩ := itself
  obtain ⟨middle, once, _⟩ := Relation.TransGen.head'_iff.mp rewrites
  generalize whole : [NamedSymbol.nonterminal name] = form at once
  cases once with
  | @expand rule member before behind =>
      have isLeft : NamedSymbol.nonterminal rule.left ∈ [NamedSymbol.nonterminal name] := by
        rw [whole]
        simp
      cases List.mem_singleton.mp isLeft
      exact Grammar.names_left rules member

/-! ### What the checks report -/

/-- Whether a rule is the first that shares its left side and the names on its right, whatever
their kinds, with an earlier one. -/
def IsFirstRepeat (rules : List NamedRule) (rule : NamedRule) : Prop :=
  ∃ front back, rules = front ++ rule :: back ∧ (front.map NamedRule.shape).Nodup ∧
    ∃ earlier ∈ front, earlier.shape = rule.shape

/-- Whether a name is the first nonterminal of the right sides that no rule has on its left. -/
def IsFirstMissing (rules : List NamedRule) (name : String) : Prop :=
  ∃ front rule back before after, rules = front ++ rule :: back ∧
    rule.right = before ++ .nonterminal name :: after ∧
    (∀ earlier ∈ front, DefinesAll rules earlier.right) ∧ DefinesAll rules before ∧
    ¬ Defines rules name

theorem firstRepeat_eq_some_iff {seen : List (String × List String)} {found : NamedRule} :
    firstRepeat seen rules = some found ↔ ∃ front back, rules = front ++ found :: back ∧
      firstRepeat seen front = none ∧
      (found.shape ∈ seen ∨ ∃ earlier ∈ front, earlier.shape = found.shape) := by
  induction rules generalizing seen with
  | nil => simp [firstRepeat]
  | cons rule rest inductionHypothesis =>
      by_cases known : rule.shape ∈ seen
      · rw [firstRepeat, if_pos known]
        constructor
        · intro same
          cases same
          exact ⟨[], rest, rfl, rfl, .inl known⟩
        · rintro ⟨front, back, split, none, _⟩
          cases front with
          | nil => rw [(List.cons.inj split).1]
          | cons head front =>
              obtain ⟨rfl, _⟩ := List.cons.inj split
              exact absurd none (by simp [firstRepeat, known])
      · rw [firstRepeat, if_neg known, inductionHypothesis]
        constructor
        · rintro ⟨front, back, rfl, none, shared⟩
          refine ⟨rule :: front, back, rfl, by rwa [firstRepeat, if_neg known], ?_⟩
          rw [List.mem_cons] at shared
          simp only [List.mem_cons, exists_eq_or_imp]
          tauto
        · rintro ⟨front, back, split, none, shared⟩
          cases front with
          | nil =>
              obtain ⟨rfl, _⟩ := List.cons.inj split
              simp [known] at shared
          | cons head front =>
              obtain ⟨rfl, rfl⟩ := List.cons.inj split
              rw [firstRepeat, if_neg known] at none
              refine ⟨front, back, rfl, none, ?_⟩
              rw [List.mem_cons]
              simp only [List.mem_cons, exists_eq_or_imp] at shared
              tauto

theorem firstRepeat_nil_eq_some_iff {found : NamedRule} :
    firstRepeat [] rules = some found ↔ IsFirstRepeat rules found := by
  rw [firstRepeat_eq_some_iff]
  simp [IsFirstRepeat, firstRepeat_eq_none_iff]

/-- Searching the names of a form stops at its first occurrence without a rule. -/
theorem find?_nonterminalNames_eq_some_iff {form : List NamedSymbol} {name : String} :
    (form.filterMap NamedSymbol.nonterminalName?).find?
        (fun name => !(rules.any fun rule => rule.left == name)) = some name ↔
      ∃ before after, form = before ++ .nonterminal name :: after ∧ DefinesAll rules before ∧
        ¬ Defines rules name := by
  have undefined : ∀ symbol : NamedSymbol,
      symbol.nonterminalName?.any (fun name => !(rules.any fun rule => rule.left == name)) = true ↔
        ∃ name, symbol = .nonterminal name ∧ ¬ Defines rules name := by
    intro symbol
    simp only [Option.any_eq_true, NamedSymbol.nonterminalName?_eq_some_iff, Bool.not_eq_eq_eq_not,
      Bool.not_true, ← any_left_iff, Bool.not_eq_true]
  simp only [List.find?_filterMap, Option.bind_eq_some_iff, List.find?_eq_some_iff_append,
    NamedSymbol.nonterminalName?_eq_some_iff, Bool.not_eq_eq_eq_not, Bool.not_true,
    ← Bool.not_eq_true, undefined]
  constructor
  · rintro ⟨_, ⟨⟨_, same, missing⟩, before, after, split, defined⟩, rfl⟩
    cases same
    refine ⟨before, after, split, fun other member => ?_, missing⟩
    by_contra undefinedOther
    exact defined _ member ⟨other, rfl, undefinedOther⟩
  · rintro ⟨before, after, split, defined, missing⟩
    refine ⟨_, ⟨⟨name, rfl, missing⟩, before, after, split, ?_⟩, rfl⟩
    rintro _ member ⟨other, rfl, undefinedOther⟩
    exact undefinedOther (defined other member)

theorem firstMissing_eq_some_iff {name : String} :
    firstMissing rules = some name ↔ IsFirstMissing rules name := by
  simp only [firstMissing, List.find?_flatMap, List.findSome?_eq_some_iff,
    find?_nonterminalNames_eq_some_iff, find?_nonterminalNames_eq_none_iff]
  constructor
  · rintro ⟨front, rule, back, split, ⟨before, after, right, defined, missing⟩, earlier⟩
    exact ⟨front, rule, back, before, after, split, right, earlier, defined, missing⟩
  · rintro ⟨front, rule, back, before, after, split, right, earlier, defined, missing⟩
    exact ⟨front, rule, back, split, ⟨before, after, right, defined, missing⟩, earlier⟩

/-! ### Left recursion by name -/

/-- The nonterminal that the search reports is the name of one that begins with itself. -/
theorem beginsWithItself_of_leftRecursive? {found : Nonterminal}
    (searched : (Grammar.ofNamedRules rules).leftRecursive? = some found) :
    BeginsWithItself rules ((Grammar.ofNamedRules rules).nonterminalName found) := by
  obtain ⟨itself, bound⟩ := Grammar.beginsWith_of_leftRecursive?
    (Grammar.left_known_ofNamedRules rules) (Grammar.right_known_ofNamedRules rules) searched
  obtain ⟨name, known, rfl⟩ := SymbolTable.exists_name_of_lt bound
  have named : (Grammar.ofNamedRules rules).nonterminalName
      ((Grammar.ofNamedRules rules).nonterminals.index name) = name := by
    simp [Grammar.nonterminalName, SymbolTable.name?, SymbolTable.index, known]
  rw [named]
  exact (beginsWithItself_iff known).mpr itself

theorem leftRecursive?_eq_none_iff :
    (Grammar.ofNamedRules rules).leftRecursive? = none ↔
      ∀ name, ¬ BeginsWithItself rules name := by
  constructor
  · intro searched name itself
    have known := itself.mem_names
    exact Grammar.not_beginsWith_of_leftRecursive? (Grammar.left_known_ofNamedRules rules)
      (Grammar.right_known_ofNamedRules rules)
      (Nat.lt_of_le_of_lt (Nat.zero_le _) (SymbolTable.index_lt_size known)) searched _
      ((beginsWithItself_iff known).mp itself)
  · intro none
    by_contra reported
    obtain ⟨found, searched⟩ := Option.ne_none_iff_exists'.mp reported
    exact none _ (beginsWithItself_of_leftRecursive? searched)

/-! ### The outcome of finishing -/

/-- What finishing a draft gives, told by its rules. -/
structure FinishesExactly (draft : Draft) : Prop where
  unattached_iff : ∀ count, draft.finish = .error (.unattachedAlternatives count) ↔
    draft.held ≠ [] ∧ draft.held.length = count
  noRules_iff : draft.finish = .error .noRules ↔ draft.held = [] ∧ draft.rules = []
  duplicateRule_iff : ∀ left, draft.finish = .error (.duplicateRule left) ↔
    draft.held = [] ∧ draft.rules ≠ [] ∧ ∃ rule, IsFirstRepeat draft.rules rule ∧ rule.left = left
  missingRule_iff : ∀ name, draft.finish = .error (.missingRule name) ↔
    draft.held = [] ∧ draft.rules ≠ [] ∧ (draft.rules.map NamedRule.shape).Nodup ∧
      IsFirstMissing draft.rules name
  leftRecursive_iff : (∃ name, draft.finish = .error (.leftRecursive name)) ↔
    draft.held = [] ∧ draft.rules ≠ [] ∧ (draft.rules.map NamedRule.shape).Nodup ∧
      (∀ rule ∈ draft.rules, DefinesAll draft.rules rule.right) ∧
      ∃ name, BeginsWithItself draft.rules name
  reported : ∀ name, draft.finish = .error (.leftRecursive name) →
    BeginsWithItself draft.rules name
  accepted_iff : ∀ grammar, draft.finish = .ok grammar ↔
    (draft.held = [] ∧ draft.rules ≠ [] ∧ (draft.rules.map NamedRule.shape).Nodup ∧
      (∀ rule ∈ draft.rules, DefinesAll draft.rules rule.right) ∧
      ∀ name, ¬ BeginsWithItself draft.rules name) ∧
      Grammar.ofNamedRules draft.rules = grammar
  never_terminalOnLeft : ∀ name, draft.finish ≠ .error (.terminalOnLeft name)

/-- One check fails or none: that fixes the outcome, and with it what all the conditions say. -/
theorem finishesExactly (draft : Draft) : draft.FinishesExactly := by
  have nodup_iff : (draft.rules.map NamedRule.shape).Nodup ↔ firstRepeat [] draft.rules = none := by
    simp [firstRepeat_eq_none_iff]
  by_cases held : draft.held = []
  case neg =>
    have outcome : draft.finish = .error (.unattachedAlternatives draft.held.length) := by
      rw [finish, if_pos held]
    constructor <;> simp [outcome, held]
  by_cases some_rule : draft.rules = []
  case pos =>
    have outcome : draft.finish = .error .noRules := by
      rw [finish, if_neg (not_not.mpr held), if_pos some_rule]
    constructor <;> simp [outcome, held, some_rule]
  cases repeated : firstRepeat [] draft.rules with
  | some rule =>
      have outcome : draft.finish = .error (.duplicateRule rule.left) := by
        rw [finish, if_neg (not_not.mpr held), if_neg some_rule, repeated]
      constructor <;>
        simp [outcome, held, some_rule, nodup_iff, repeated, ← firstRepeat_nil_eq_some_iff]
  | none =>
      cases missing : firstMissing draft.rules with
      | some name =>
          have outcome : draft.finish = .error (.missingRule name) := by
            simp only [finish, if_neg (not_not.mpr held), if_neg some_rule, repeated, missing]
          constructor <;>
            simp [outcome, held, some_rule, nodup_iff, repeated, missing,
              ← firstRepeat_nil_eq_some_iff, ← firstMissing_eq_some_iff, ← firstMissing_eq_none_iff]
      | none =>
          cases searched : (Grammar.ofNamedRules draft.rules).leftRecursive? with
          | some found =>
              have outcome : draft.finish = .error (.leftRecursive
                  ((Grammar.ofNamedRules draft.rules).nonterminalName found)) := by
                simp only [finish, if_neg (not_not.mpr held), if_neg some_rule, repeated, missing,
                  searched]
              have itself := beginsWithItself_of_leftRecursive? searched
              have somewhere : ∃ name, BeginsWithItself draft.rules name := ⟨_, itself⟩
              constructor <;>
                simp [outcome, held, some_rule, nodup_iff, repeated, missing, itself, somewhere,
                  ← firstRepeat_nil_eq_some_iff, ← firstMissing_eq_some_iff,
                  ← firstMissing_eq_none_iff]
          | none =>
              have outcome : draft.finish = .ok (Grammar.ofNamedRules draft.rules) := by
                simp only [finish, if_neg (not_not.mpr held), if_neg some_rule, repeated, missing,
                  searched]
              have nowhere := leftRecursive?_eq_none_iff.mp searched
              constructor <;>
                simp [outcome, held, some_rule, nodup_iff, repeated, missing, nowhere,
                  ← firstRepeat_nil_eq_some_iff, ← firstMissing_eq_some_iff,
                  ← firstMissing_eq_none_iff]

/-! ### Drafts built by events -/

/-- Whether one of the rules among the events is accepted when its turn comes. -/
def AcceptsRule (events : List Event) : Prop :=
  ∃ before left right after next, events = before ++ .rule left right :: after ∧
    (empty.applyEach before).addRule left right = .ok next

theorem acceptsRule_concat_iff {events : List Event} {event : Event} :
    AcceptsRule (events ++ [event]) ↔ AcceptsRule events ∨
      ∃ left right next, event = .rule left right ∧
        (empty.applyEach events).addRule left right = .ok next := by
  constructor
  · rintro ⟨before, left, right, after, next, split, accepted⟩
    rcases List.eq_nil_or_concat after with rfl | ⟨init, last, rfl⟩
    · obtain ⟨rfl, same⟩ := List.append_inj' split rfl
      cases same
      exact .inr ⟨left, right, next, rfl, accepted⟩
    · rw [List.concat_eq_append, ← List.cons_append, ← List.append_assoc] at split
      obtain ⟨rfl, _⟩ := List.append_inj' split rfl
      exact .inl ⟨before, left, right, init, next, rfl, accepted⟩
  · rintro (⟨before, left, right, after, next, rfl, accepted⟩ | ⟨left, right, next, rfl, accepted⟩)
    · exact ⟨before, left, right, after ++ [event], next, by simp, accepted⟩
    · exact ⟨events, left, right, [], next, rfl, accepted⟩

theorem rules_ne_nil_of_addRule {draft next : Draft} {left : WrittenSymbol}
    {right : List WrittenSymbol} (accepted : draft.addRule left right = .ok next) :
    next.rules ≠ [] := by
  unfold addRule at accepted
  split at accepted
  · exact absurd accepted (by simp)
  · cases accepted
    simp

/-- A draft has rules as soon as one was accepted. -/
theorem rules_applyEach_ne_nil_iff (events : List Event) :
    (empty.applyEach events).rules ≠ [] ↔ AcceptsRule events := by
  induction events using List.reverseRecOn with
  | nil => simp [applyEach, empty, AcceptsRule]
  | append_singleton events event inductionHypothesis =>
      rw [acceptsRule_concat_iff, ← inductionHypothesis]
      have step : empty.applyEach (events ++ [event]) =
          ((empty.applyEach events).apply event).toOption.getD (empty.applyEach events) := by
        simp [applyEach]
      rw [step]
      cases event with
      | terminals names => simp [apply, declare, Except.toOption]
      | alternative right => simp [apply, hold, Except.toOption]
      | rule left right =>
          cases outcome : (empty.applyEach events).addRule left right with
          | error error => simp [apply, outcome, Except.toOption]
          | ok next => simp [apply, outcome, Except.toOption, rules_ne_nil_of_addRule outcome]

/-- Whatever events have built a draft, rejected ones included, finishing it reports the first
thing that is wrong, or hands out its grammar. -/
theorem finish_exact (events : List Event) :
    (empty.applyEach events).FinishesExactly ∧
      ((empty.applyEach events).rules = [] ↔ ¬ AcceptsRule events) := by
  refine ⟨finishesExactly _, ?_⟩
  rw [← rules_applyEach_ne_nil_iff, not_not]

/-- The recursion is hidden behind a nonterminal that can be erased, and `T` only leads to it. -/
example : (empty.applyEach [.rule (.name "T") [.name "S"],
    .rule (.name "S") [.name "P", .name "S", .literal "a"], .alternative [],
    .rule (.name "P") [.literal "b"]]).finish = .error (.leftRecursive "S") := by rfl

end Draft

end Predictive
