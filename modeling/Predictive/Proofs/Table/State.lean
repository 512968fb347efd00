import Mathlib.Data.Finset.Powerset
import Mathlib.Data.Finset.Prod
import Predictive.Proofs.Discovery
import Predictive.Proofs.Grammar.LeftRecursion
import Predictive.Proofs.Lookahead.First
import Predictive.Proofs.Table.Column
import Predictive.Table.State

/-!
Contract: the canonical states are the contexts of leftmost derivations.

Owns: rule profiles as total functions, the reachable nonterminals, the bound on the
number of contexts, and the exactness of their discovery.
Does not own: the table over the states.

A context that the search finds is a nonterminal with the beginnings of what stands behind
it in some nesting of right sides, and every nesting is found (`mem_contexts`). This rests
on concatenation: following a follow set by one more rule is taking the beginnings of the
longer right context.
-/

namespace Predictive

theorem mem_occurrences {rule : Rule} {nonterminal : Nonterminal} :
    nonterminal ∈ rule.occurrences ↔ .nonterminal nonterminal ∈ rule.right := by
  unfold Rule.occurrences
  rw [List.mem_filterMap]
  constructor
  · rintro ⟨symbol, member, named⟩
    cases symbol with
    | terminal number => exact absurd named (by simp [Symbol.nonterminal?])
    | nonterminal number =>
        cases named
        exact member
  · intro member
    exact ⟨_, member, rfl⟩

theorem mem_occurrencesWithRest {form rest : List Symbol} {nonterminal : Nonterminal} :
    (nonterminal, rest) ∈ occurrencesWithRest form ↔
      ∃ before, form = before ++ .nonterminal nonterminal :: rest := by
  induction form with
  | nil => simp [occurrencesWithRest]
  | cons symbol form inductionHypothesis =>
      cases symbol with
      | terminal number =>
          rw [occurrencesWithRest, inductionHypothesis]
          constructor
          · rintro ⟨before, rfl⟩
            exact ⟨.terminal number :: before, rfl⟩
          · rintro ⟨before, split⟩
            cases before with
            | nil => exact absurd split (by simp)
            | cons head before => exact ⟨before, (List.cons.inj split).2⟩
      | nonterminal number =>
          rw [occurrencesWithRest, List.mem_cons, inductionHypothesis]
          constructor
          · rintro (same | ⟨before, rfl⟩)
            · cases same
              exact ⟨[], rfl⟩
            · exact ⟨.nonterminal number :: before, rfl⟩
          · rintro ⟨before, split⟩
            cases before with
            | nil =>
                cases split
                exact .inl rfl
            | cons head before => exact .inr ⟨before, (List.cons.inj split).2⟩

/-- A context as a pair of a number and a finite set. -/
def Context.code (key : Context) : Nonterminal × Finset BoundedString :=
  (key.nonterminal, key.follow.strings.toFinset)

theorem Context.code_injective : Function.Injective Context.code := by
  intro first second same
  obtain ⟨sameNonterminal, sameFollow⟩ := Prod.mk.inj same
  have follows : first.follow = second.follow := by
    apply LookaheadSet.ext_mem
    intro string
    have members := congrArg (string ∈ ·) sameFollow
    simpa using members
  cases first
  cases second
  exact congrArg₂ Context.mk sameNonterminal follows

namespace Grammar

variable {grammar : Grammar}

/-! ### Right contexts -/

theorem RightContext.known (wellFormed : grammar.WellFormed) {nonterminal : Nonterminal}
    {behind : List Symbol} (context : grammar.RightContext nonterminal behind) :
    nonterminal < grammar.nonterminals.size ∧ grammar.KnowsAll behind := by
  induction context with
  | start => exact ⟨wellFormed.start_known, knowsAll_nil⟩
  | @occurrence rule before behind below nonterminal outer member split inductionHypothesis =>
      have right := wellFormed.right_known rule member
      rw [split, knowsAll_append, knowsAll_cons] at right
      exact ⟨right.2.1, knowsAll_append.mpr ⟨right.2.2, inductionHypothesis.2⟩⟩

/-! ### Reachable nonterminals -/

section WellFormed

variable (wellFormed : grammar.WellFormed)

include wellFormed

theorem WellFormed.mem_reachable {nonterminal : Nonterminal} :
    nonterminal ∈ grammar.reachable ↔
      Discovery.LeadsTo grammar.mentioned grammar.start nonterminal := by
  have known : ∀ other, Discovery.LeadsTo grammar.mentioned grammar.start other →
      other < grammar.nonterminals.size := by
    intro other reached
    cases reached with
    | refl => exact wellFormed.start_known
    | tail _ mentioned =>
        obtain ⟨rule, member, occurs⟩ := List.mem_flatMap.mp mentioned
        exact wellFormed.right_known rule (mem_rulesFor.mp member).1 _ (mem_occurrences.mp occurs)
  exact (Discovery.explore_complete fun nodes nodup reached =>
    length_le_of_nodup_lt nodup fun node member => known node (reached node member)).mem_iff _

theorem WellFormed.reachable_of_context {nonterminal : Nonterminal} {behind : List Symbol}
    (context : grammar.RightContext nonterminal behind) : nonterminal ∈ grammar.reachable := by
  rw [wellFormed.mem_reachable]
  induction context with
  | start => exact Relation.ReflTransGen.refl
  | @occurrence rule before behind below nonterminal outer member split inductionHypothesis =>
      refine inductionHypothesis.tail (List.mem_flatMap.mpr ⟨rule, ?_, ?_⟩)
      · exact mem_rulesFor.mpr ⟨member, rfl⟩
      · exact mem_occurrences.mpr (by rw [split]; simp)

end WellFormed

/-! ### Profiles -/

/-- The profile of a rule, with FIRST as a total function. -/
def ruleProfile (grammar : Grammar) (length : Nat) (rule : Rule) : RuleProfile where
  rule := rule
  leading := grammar.beginnings length rule.right
  trailing := (occurrencesWithRest rule.right).map fun (nonterminal, rest) =>
    (nonterminal, grammar.beginnings length rest)

def profiles (grammar : Grammar) (length : Nat) : List RuleProfile :=
  grammar.reachableRules.map (grammar.ruleProfile length)

/-- The contexts of the canonical states, in the order of their numbers. -/
def contexts (grammar : Grammar) (length : Nat) : List Context :=
  reachableContexts grammar length (grammar.profiles length)

theorem WellFormed.trailing_eq (wellFormed : grammar.WellFormed) (length : Nat) (rule : Rule) :
    grammar.trailing length rule.right = .ok (grammar.ruleProfile length rule).trailing := by
  apply mapM_eq_ok
  rintro ⟨nonterminal, rest⟩ _
  simp only [wellFormed.first_eq]
  rfl

theorem WellFormed.profile_eq (wellFormed : grammar.WellFormed) (length : Nat) (rule : Rule) :
    grammar.profile length rule = .ok (grammar.ruleProfile length rule) := by
  rw [profile, wellFormed.first_eq, wellFormed.trailing_eq]
  rfl

theorem WellFormed.states_eq (wellFormed : grammar.WellFormed) (length : Nat) :
    grammar.states length = .ok ((grammar.contexts length).map
      (stateOf (grammar.profiles length) length (grammar.contexts length))) := by
  rw [states, mapM_eq_ok fun rule _ => wellFormed.profile_eq length rule]
  rfl

theorem profilesFor_profiles {length : Nat} {nonterminal : Nonterminal}
    (reachable : nonterminal ∈ grammar.reachable) :
    profilesFor (grammar.profiles length) nonterminal =
      (grammar.rulesFor nonterminal).map (grammar.ruleProfile length) := by
  unfold profilesFor profiles reachableRules rulesFor
  rw [List.filter_map, List.filter_filter]
  congr 1
  apply List.filter_congr
  intro rule _
  by_cases same : rule.left = nonterminal
  · subst same
    simp [ruleProfile, reachable]
  · simp [ruleProfile, same]

theorem mem_profilesFor_profiles {length : Nat} {nonterminal : Nonterminal}
    {profile : RuleProfile}
    (member : profile ∈ profilesFor (grammar.profiles length) nonterminal) :
    ∃ rule ∈ grammar.rules, rule.left = nonterminal ∧
      profile = grammar.ruleProfile length rule := by
  obtain ⟨inProfiles, ofLeft⟩ := List.mem_filter.mp member
  obtain ⟨rule, reachable, rfl⟩ := List.mem_map.mp inProfiles
  exact ⟨rule, (List.mem_filter.mp reachable).1, by simpa [ruleProfile] using ofLeft, rfl⟩

/-- All strings that a follow set can hold. -/
def followStrings (grammar : Grammar) (length : Nat) : Finset BoundedString :=
  ((grammar.axis length).columns.map (BoundedString.cut length)).toFinset

theorem card_followStrings_le (grammar : Grammar) (length : Nat) :
    (grammar.followStrings length).card ≤ (grammar.axis length).count := by
  have atMost := List.toFinset_card_le
    ((grammar.axis length).columns.map (BoundedString.cut length))
  rwa [List.length_map, Axis.length_columns] at atMost

/-! ### Contexts of right sides -/

section WellFormed

variable (wellFormed : grammar.WellFormed)

include wellFormed

/-- The contexts of a right side's occurrences, when known symbols stand below it. -/
theorem WellFormed.contexts_ruleProfile (length : Nat) (rule : Rule) {below : List Symbol}
    (known : grammar.KnowsAll below) :
    (grammar.ruleProfile length rule).contexts length (grammar.beginnings length below) =
      (occurrencesWithRest rule.right).map fun (nonterminal, rest) =>
        ⟨nonterminal, grammar.beginnings length (rest ++ below)⟩ := by
  unfold RuleProfile.contexts contextsOf ruleProfile
  rw [List.map_map]
  apply List.map_congr_left
  rintro ⟨nonterminal, rest⟩ _
  simp only [Function.comp_apply, wellFormed.concat_beginnings length rest known]

theorem WellFormed.leadsTo_context (length : Nat) {nonterminal : Nonterminal}
    {behind : List Symbol} (context : grammar.RightContext nonterminal behind) :
    Discovery.LeadsTo (successorContexts (grammar.profiles length) length)
      (grammar.startContext length) ⟨nonterminal, grammar.beginnings length behind⟩ := by
  induction context with
  | start =>
      rw [wellFormed.beginnings_nil]
      exact Relation.ReflTransGen.refl
  | @occurrence rule before behind below nonterminal outer member split inductionHypothesis =>
      refine inductionHypothesis.tail (List.mem_flatMap.mpr
        ⟨grammar.ruleProfile length rule, ?_, ?_⟩)
      · rw [profilesFor_profiles (wellFormed.reachable_of_context outer)]
        exact List.mem_map.mpr ⟨rule, mem_rulesFor.mpr ⟨member, rfl⟩, rfl⟩
      · rw [wellFormed.contexts_ruleProfile length rule (outer.known wellFormed).2]
        exact List.mem_map.mpr
          ⟨(nonterminal, behind), mem_occurrencesWithRest.mpr ⟨before, split⟩, rfl⟩

theorem WellFormed.context_of_leadsTo {length : Nat} {key : Context}
    (reached : Discovery.LeadsTo (successorContexts (grammar.profiles length) length)
      (grammar.startContext length) key) :
    ∃ behind, grammar.RightContext key.nonterminal behind ∧
      key.follow = grammar.beginnings length behind := by
  induction reached with
  | refl => exact ⟨[], .start, (wellFormed.beginnings_nil length).symm⟩
  | @tail key next _ successor inductionHypothesis =>
      obtain ⟨below, context, follows⟩ := inductionHypothesis
      obtain ⟨profile, ofKey, inContexts⟩ := List.mem_flatMap.mp successor
      obtain ⟨rule, member, ofLeft, rfl⟩ := mem_profilesFor_profiles ofKey
      rw [follows, wellFormed.contexts_ruleProfile length rule (context.known wellFormed).2]
        at inContexts
      obtain ⟨⟨nonterminal, rest⟩, occurs, rfl⟩ := List.mem_map.mp inContexts
      obtain ⟨before, split⟩ := mem_occurrencesWithRest.mp occurs
      rw [← ofLeft] at context
      exact ⟨rest ++ below, .occurrence context member split, rfl⟩

/-! ### The number of contexts -/

/-- The strings of a follow set are columns. -/
theorem WellFormed.mem_columns_of_beginning {length : Nat} {form : List Symbol}
    (known : grammar.KnowsAll form) {word : List Terminal}
    (beginning : grammar.IsBeginning length form word) :
    word ∈ (grammar.axis length).columns := by
  rw [Axis.mem_columns, Axis.contains_iff]
  refine ⟨beginning.length_le, ?_⟩
  rcases isBeginning_iff_reads.mp beginning with ⟨_, _, reads⟩ | ⟨_, _, _, reads⟩
  · exact (wellFormed.known_of_reads reads known).1
  · exact (wellFormed.known_of_reads reads known).1

theorem WellFormed.mem_followStrings {length : Nat} {form : List Symbol}
    (known : grammar.KnowsAll form) {string : BoundedString}
    (member : string ∈ grammar.beginnings length form) : string ∈ grammar.followStrings length := by
  rw [wellFormed.isFirst_beginnings length form string] at member
  obtain ⟨ofLimit, beginning⟩ := member
  refine List.mem_toFinset.mpr (List.mem_map.mpr
    ⟨string.terminals, wellFormed.mem_columns_of_beginning known beginning, ?_⟩)
  exact ((BoundedString.eq_cut_iff beginning.length_le).mpr ⟨ofLimit, rfl⟩).symm

theorem WellFormed.length_le_contextBound {length : Nat} {keys : List Context}
    (nodup : keys.Nodup) (reached : ∀ key ∈ keys,
      Discovery.LeadsTo (successorContexts (grammar.profiles length) length)
        (grammar.startContext length) key) : keys.length ≤ grammar.contextBound length := by
  have inside : (keys.map Context.code).toFinset ⊆
      Finset.range grammar.nonterminals.size ×ˢ (grammar.followStrings length).powerset := by
    intro pair member
    obtain ⟨key, keyMember, rfl⟩ := List.mem_map.mp (List.mem_toFinset.mp member)
    obtain ⟨behind, context, follows⟩ := wellFormed.context_of_leadsTo (reached key keyMember)
    obtain ⟨inRange, known⟩ := context.known wellFormed
    refine Finset.mem_product.mpr ⟨Finset.mem_range.mpr inRange, Finset.mem_powerset.mpr ?_⟩
    intro string stringMember
    have inFollow : string ∈ key.follow := List.mem_toFinset.mp stringMember
    rw [follows] at inFollow
    exact wellFormed.mem_followStrings known inFollow
  calc keys.length
    _ = (keys.map Context.code).toFinset.card := by
        rw [List.toFinset_card_of_nodup (nodup.map Context.code_injective), List.length_map]
    _ ≤ (Finset.range grammar.nonterminals.size ×ˢ
          (grammar.followStrings length).powerset).card := Finset.card_le_card inside
    _ = grammar.nonterminals.size * 2 ^ (grammar.followStrings length).card := by
        rw [Finset.card_product, Finset.card_range, Finset.card_powerset]
    _ ≤ grammar.contextBound length :=
        Nat.mul_le_mul_left _
          (Nat.pow_le_pow_right (by decide) (grammar.card_followStrings_le length))

/-! ### The discovered contexts -/

theorem WellFormed.contexts_complete (length : Nat) :
    Discovery.Complete (successorContexts (grammar.profiles length) length)
      (grammar.startContext length) (grammar.contexts length) :=
  Discovery.explore_complete fun _ nodup reached =>
    wellFormed.length_le_contextBound nodup reached

theorem WellFormed.length_contexts_le (length : Nat) :
    (grammar.contexts length).length ≤ grammar.contextBound length := by
  have complete := wellFormed.contexts_complete length
  exact wellFormed.length_le_contextBound complete.nodup fun key known =>
    (complete.mem_iff key).mp known

/-- The discovered contexts are the nonterminals with the beginnings of their right
contexts. -/
theorem WellFormed.mem_contexts {length : Nat} {key : Context} :
    key ∈ grammar.contexts length ↔
      ∃ behind, grammar.RightContext key.nonterminal behind ∧
        key.follow = grammar.beginnings length behind := by
  rw [(wellFormed.contexts_complete length).mem_iff]
  constructor
  · exact wellFormed.context_of_leadsTo
  · rintro ⟨behind, context, follows⟩
    have reached := wellFormed.leadsTo_context length context
    rwa [← follows] at reached

theorem WellFormed.mem_contexts_of_context (length : Nat) {nonterminal : Nonterminal}
    {behind : List Symbol} (context : grammar.RightContext nonterminal behind) :
    ⟨nonterminal, grammar.beginnings length behind⟩ ∈ grammar.contexts length :=
  wellFormed.mem_contexts.mpr ⟨behind, context, rfl⟩

theorem WellFormed.getElem?_contexts_zero (length : Nat) :
    (grammar.contexts length)[0]? = some ⟨grammar.start, grammar.beginnings length []⟩ := by
  rw [wellFormed.beginnings_nil]
  exact (wellFormed.contexts_complete length).starts

end WellFormed

end Grammar

end Predictive
