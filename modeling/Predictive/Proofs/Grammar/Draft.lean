import Predictive.Grammar.Draft
import Predictive.Proofs.Grammar.LeftRecursion

/-!
Contract: a finished draft is a well-formed grammar.

Owns: the symbol tables that the numbering builds, what the checks of a draft establish,
and their translation to the numbered rules.
Does not own: which drafts pass the checks.
-/

namespace Predictive

namespace SymbolTable

theorem mem_names_foldl_add (names : List String) (table : SymbolTable) (name : String) :
    name ∈ (names.foldl add table).names ↔ name ∈ table.names ∨ name ∈ names := by
  induction names generalizing table with
  | nil => simp
  | cons head rest inductionHypothesis =>
      rw [List.foldl_cons, inductionHypothesis, mem_names_add, List.mem_cons, or_assoc]

theorem mem_names_ofList (names : List String) (name : String) :
    name ∈ (ofList names).names ↔ name ∈ names := by
  rw [ofList, mem_names_foldl_add]
  simp [empty]

theorem index_lt_size {table : SymbolTable} {name : String} (member : name ∈ table.names) :
    table.index name < table.size :=
  List.idxOf_lt_length_of_mem member

theorem eq_of_index_eq {table : SymbolTable} {name other : String} (member : name ∈ table.names)
    (same : table.index name = table.index other) : name = other :=
  (List.idxOf_inj member).mp same

theorem exists_name_of_lt {table : SymbolTable} {number : Nat} (bound : number < table.size) :
    ∃ name ∈ table.names, table.index name = number := by
  unfold size at bound
  exact ⟨table.names[number], List.getElem_mem bound, table.nodup.idxOf_getElem number bound⟩

end SymbolTable

namespace Grammar

/-- A named symbol by the grammar's tables. -/
def numberSymbol (grammar : Grammar) : NamedSymbol → Symbol
  | .terminal name => .terminal (grammar.terminals.index name)
  | .nonterminal name => .nonterminal (grammar.nonterminals.index name)

/-- A named rule at a place, counted from 0, by the grammar's tables. -/
def numberRule (grammar : Grammar) (index : Nat) (rule : NamedRule) : Rule :=
  ⟨index + 1, grammar.nonterminals.index rule.left, rule.right.map grammar.numberSymbol⟩

/-- Whether the grammar's tables hold a named symbol. -/
def Names (grammar : Grammar) : NamedSymbol → Prop
  | .terminal name => name ∈ grammar.terminals.names
  | .nonterminal name => name ∈ grammar.nonterminals.names

theorem knows_numberSymbol {grammar : Grammar} {symbol : NamedSymbol}
    (named : grammar.Names symbol) : grammar.Knows (grammar.numberSymbol symbol) := by
  cases symbol with
  | terminal name => exact SymbolTable.index_lt_size named
  | nonterminal name => exact SymbolTable.index_lt_size named

theorem eq_of_numberSymbol_eq {grammar : Grammar} {first second : NamedSymbol}
    (named : grammar.Names first)
    (same : grammar.numberSymbol first = grammar.numberSymbol second) : first = second := by
  cases first <;> cases second <;> simp only [numberSymbol, Symbol.terminal.injEq,
    Symbol.nonterminal.injEq, reduceCtorEq] at same
  · rw [SymbolTable.eq_of_index_eq named same]
  · rw [SymbolTable.eq_of_index_eq named same]

theorem eq_of_map_numberSymbol_eq {grammar : Grammar} {first second : List NamedSymbol}
    (named : ∀ symbol ∈ first, grammar.Names symbol)
    (same : first.map grammar.numberSymbol = second.map grammar.numberSymbol) :
    first = second := by
  induction first generalizing second with
  | nil =>
      cases second with
      | nil => rfl
      | cons head rest => exact absurd same (by simp)
  | cons symbol first inductionHypothesis =>
      cases second with
      | nil => exact absurd same (by simp)
      | cons head rest =>
          obtain ⟨heads, tails⟩ := List.cons.inj same
          rw [eq_of_numberSymbol_eq (named symbol (by simp)) heads,
            inductionHypothesis (fun other member => named other (by simp [member])) tails]

/-! ### The numbering of named rules -/

section Numbering

variable (rules : List NamedRule)

theorem rules_ofNamedRules : (ofNamedRules rules).rules =
    rules.zipIdx.map fun (rule, index) => (ofNamedRules rules).numberRule index rule := by
  unfold ofNamedRules
  apply List.map_congr_left
  rintro ⟨rule, index⟩ _
  simp only [numberRule]
  congr 1

theorem rule?_ofNamedRules (index : Nat) : (ofNamedRules rules).rule? (index + 1) =
    rules[index]?.map ((ofNamedRules rules).numberRule index) := by
  rw [rule?, rules_ofNamedRules, List.getElem?_map, List.getElem?_zipIdx, Option.map_map,
    Nat.zero_add]
  rfl

theorem mem_rules_ofNamedRules (rule : Rule) : rule ∈ (ofNamedRules rules).rules ↔
    ∃ index named, rules[index]? = some named ∧
      rule = (ofNamedRules rules).numberRule index named := by
  rw [List.mem_iff_getElem?]
  constructor
  · rintro ⟨index, found⟩
    have numbered := rule?_ofNamedRules rules index
    rw [rule?, found] at numbered
    obtain ⟨named, at_index, equal⟩ := Option.map_eq_some_iff.mp numbered.symm
    exact ⟨index, named, at_index, equal.symm⟩
  · rintro ⟨index, named, at_index, rfl⟩
    have numbered := rule?_ofNamedRules rules index
    rw [rule?, at_index] at numbered
    exact ⟨index, numbered⟩

theorem names_left {named : NamedRule} (member : named ∈ rules) :
    named.left ∈ (ofNamedRules rules).nonterminals.names := by
  refine (SymbolTable.mem_names_ofList _ _).mpr (List.mem_flatMap.mpr ⟨named, member, ?_⟩)
  exact List.mem_cons_self

theorem names_right {named : NamedRule} (member : named ∈ rules) {symbol : NamedSymbol}
    (inRight : symbol ∈ named.right) : (ofNamedRules rules).Names symbol := by
  cases symbol with
  | terminal name =>
      refine (SymbolTable.mem_names_ofList _ _).mpr (List.mem_flatMap.mpr ⟨named, member, ?_⟩)
      exact List.mem_filterMap.mpr ⟨.terminal name, inRight, rfl⟩
  | nonterminal name =>
      refine (SymbolTable.mem_names_ofList _ _).mpr (List.mem_flatMap.mpr ⟨named, member, ?_⟩)
      exact List.mem_cons_of_mem _ (List.mem_filterMap.mpr ⟨.nonterminal name, inRight, rfl⟩)

theorem left_known_ofNamedRules (rule : Rule) (member : rule ∈ (ofNamedRules rules).rules) :
    rule.left < (ofNamedRules rules).nonterminals.size := by
  obtain ⟨index, named, atIndex, rfl⟩ := (mem_rules_ofNamedRules rules rule).mp member
  exact SymbolTable.index_lt_size (names_left rules (List.mem_of_getElem? atIndex))

theorem right_known_ofNamedRules (rule : Rule) (member : rule ∈ (ofNamedRules rules).rules) :
    (ofNamedRules rules).KnowsAll rule.right := by
  obtain ⟨index, named, atIndex, rfl⟩ := (mem_rules_ofNamedRules rules rule).mp member
  intro symbol inRight
  obtain ⟨source, sourceMember, rfl⟩ := List.mem_map.mp inRight
  exact knows_numberSymbol (names_right rules (List.mem_of_getElem? atIndex) sourceMember)

end Numbering

end Grammar

/-! ### The checks of a draft -/

theorem NamedSymbol.nonterminalName?_eq_some_iff {symbol : NamedSymbol} {name : String} :
    symbol.nonterminalName? = some name ↔ symbol = .nonterminal name := by
  cases symbol <;> simp [nonterminalName?]

theorem mem_nonterminalNames {right : List NamedSymbol} {name : String} :
    name ∈ right.filterMap NamedSymbol.nonterminalName? ↔ .nonterminal name ∈ right := by
  simp [NamedSymbol.nonterminalName?_eq_some_iff]

namespace Draft

theorem firstRepeat_eq_none_iff {seen : List (String × List String)} {rules : List NamedRule} :
    firstRepeat seen rules = none ↔
      (rules.map NamedRule.shape).Nodup ∧ ∀ rule ∈ rules, rule.shape ∉ seen := by
  induction rules generalizing seen with
  | nil => simp [firstRepeat]
  | cons rule rest inductionHypothesis =>
      rw [firstRepeat, List.map_cons, List.nodup_cons, List.forall_mem_cons]
      by_cases known : rule.shape ∈ seen
      · simp [known]
      · rw [if_neg known, inductionHypothesis]
        constructor
        · rintro ⟨nodup, unseen⟩
          refine ⟨⟨?_, nodup⟩, known, fun other later inSeen =>
            unseen other later (List.mem_cons_of_mem _ inSeen)⟩
          intro member
          obtain ⟨other, later, same⟩ := List.mem_map.mp member
          exact unseen other later (by rw [same]; exact List.mem_cons_self)
        · rintro ⟨⟨fresh, nodup⟩, _, unseen⟩
          refine ⟨nodup, fun other later member => ?_⟩
          rcases List.mem_cons.mp member with same | inSeen
          · exact fresh (List.mem_map.mpr ⟨other, later, same⟩)
          · exact unseen other later inSeen

/-- Whether some rule has a name on its left. -/
def Defines (rules : List NamedRule) (name : String) : Prop :=
  ∃ rule ∈ rules, rule.left = name

/-- Whether every nonterminal of a form has a rule. -/
def DefinesAll (rules : List NamedRule) (form : List NamedSymbol) : Prop :=
  ∀ name, .nonterminal name ∈ form → Defines rules name

theorem any_left_iff {rules : List NamedRule} {name : String} :
    (rules.any fun rule => rule.left == name) = true ↔ Defines rules name := by
  simp [Defines]

theorem find?_nonterminalNames_eq_none_iff {rules : List NamedRule} {form : List NamedSymbol} :
    (form.filterMap NamedSymbol.nonterminalName?).find?
        (fun name => !(rules.any fun rule => rule.left == name)) = none ↔
      DefinesAll rules form := by
  simp only [List.find?_eq_none, mem_nonterminalNames, Bool.not_eq_true, Bool.not_eq_false',
    any_left_iff]
  rfl

theorem firstMissing_eq_none_iff {rules : List NamedRule} :
    firstMissing rules = none ↔ ∀ rule ∈ rules, DefinesAll rules rule.right := by
  rw [firstMissing, List.find?_flatMap, List.findSome?_eq_none_iff]
  simp only [find?_nonterminalNames_eq_none_iff]

/-- What the checks of a draft establish about its rules. -/
structure Checked (rules : List NamedRule) : Prop where
  some_rule : rules ≠ []
  shapes : (rules.map NamedRule.shape).Nodup
  defined : ∀ named ∈ rules, DefinesAll rules named.right
  searched : (Grammar.ofNamedRules rules).leftRecursive? = none

theorem checked_of_finish {draft : Draft} {grammar : Grammar}
    (finished : draft.finish = .ok grammar) :
    Checked draft.rules ∧ grammar = Grammar.ofNamedRules draft.rules := by
  unfold finish at finished
  split at finished
  · exact absurd finished (by simp)
  · split at finished
    · exact absurd finished (by simp)
    · rename_i some_rule
      split at finished
      · exact absurd finished (by simp)
      · rename_i noRepeat
        split at finished
        · exact absurd finished (by simp)
        · rename_i noMissing
          dsimp only at finished
          split at finished
          · exact absurd finished (by simp)
          · rename_i searched
            cases finished
            exact ⟨⟨some_rule, (firstRepeat_eq_none_iff.mp noRepeat).1,
              firstMissing_eq_none_iff.mp noMissing, searched⟩, rfl⟩

section Checked

variable {rules : List NamedRule} (checked : Checked rules)

include checked

/-- Every name in the table of nonterminals has a rule. -/
theorem Checked.exists_left {name : String}
    (member : name ∈ (Grammar.ofNamedRules rules).nonterminals.names) :
    ∃ rule ∈ rules, rule.left = name := by
  obtain ⟨named, ruleMember, inRule⟩ :=
    List.mem_flatMap.mp ((SymbolTable.mem_names_ofList _ _).mp member)
  rcases List.mem_cons.mp inRule with rfl | inRight
  · exact ⟨named, ruleMember, rfl⟩
  · exact checked.defined named ruleMember name (mem_nonterminalNames.mp inRight)

/-- Rules at two places differ after the numbering too. -/
theorem Checked.eq_of_numbered_eq {first second : NamedRule} {firstIndex secondIndex : Nat}
    (atFirst : rules[firstIndex]? = some first) (atSecond : rules[secondIndex]? = some second)
    (lefts : (Grammar.ofNamedRules rules).nonterminals.index first.left =
      (Grammar.ofNamedRules rules).nonterminals.index second.left)
    (rights : first.right.map (Grammar.ofNamedRules rules).numberSymbol =
      second.right.map (Grammar.ofNamedRules rules).numberSymbol) : firstIndex = secondIndex := by
  have firstMember := List.mem_of_getElem? atFirst
  have sameLeft := SymbolTable.eq_of_index_eq (Grammar.names_left rules firstMember) lefts
  have sameRight := Grammar.eq_of_map_numberSymbol_eq
    (fun _ member => Grammar.names_right rules firstMember member) rights
  have sameShape : first.shape = second.shape := by
    unfold NamedRule.shape
    rw [sameLeft, sameRight]
  have bound : firstIndex < (rules.map NamedRule.shape).length := by
    rw [List.length_map]
    exact (List.getElem?_eq_some_iff.mp atFirst).1
  refine (List.getElem?_inj bound checked.shapes).mp ?_
  rw [List.getElem?_map, List.getElem?_map, atFirst, atSecond, Option.map_some, Option.map_some,
    sameShape]

theorem Checked.wellFormed : (Grammar.ofNamedRules rules).WellFormed := by
  have some_nonterminal : 0 < (Grammar.ofNamedRules rules).nonterminals.size := by
    obtain ⟨named, member⟩ := List.exists_mem_of_ne_nil rules checked.some_rule
    exact Nat.lt_of_le_of_lt (Nat.zero_le _)
      (SymbolTable.index_lt_size (Grammar.names_left rules member))
  have left_known := Grammar.left_known_ofNamedRules rules
  have right_known := Grammar.right_known_ofNamedRules rules
  refine ⟨?_, ?_, left_known, right_known, ?_, ?_,
    Grammar.exists_ranking some_nonterminal left_known right_known checked.searched⟩
  · intro none
    rw [Grammar.rules_ofNamedRules] at none
    simp only [List.map_eq_nil_iff, List.zipIdx_eq_nil_iff] at none
    exact checked.some_rule none
  · intro number rule found
    cases number with
    | zero => exact absurd found (by simp [Grammar.rule?])
    | succ index =>
        rw [Grammar.rule?_ofNamedRules] at found
        obtain ⟨named, _, rfl⟩ := Option.map_eq_some_iff.mp found
        rfl
  · intro nonterminal bound
    obtain ⟨name, inTable, rfl⟩ := SymbolTable.exists_name_of_lt bound
    obtain ⟨named, member, rfl⟩ := checked.exists_left inTable
    obtain ⟨index, atIndex⟩ := List.mem_iff_getElem?.mp member
    exact ⟨_, (Grammar.mem_rules_ofNamedRules rules _).mpr ⟨index, named, atIndex, rfl⟩, rfl⟩
  · intro first firstMember second secondMember lefts rights
    obtain ⟨firstIndex, firstNamed, atFirst, rfl⟩ :=
      (Grammar.mem_rules_ofNamedRules rules first).mp firstMember
    obtain ⟨secondIndex, secondNamed, atSecond, rfl⟩ :=
      (Grammar.mem_rules_ofNamedRules rules second).mp secondMember
    have samePlace := checked.eq_of_numbered_eq atFirst atSecond lefts rights
    subst samePlace
    rw [atFirst] at atSecond
    rw [Option.some.inj atSecond]

end Checked

/-- What finishing a draft hands out is well formed. -/
theorem wellFormed_of_finish {draft : Draft} {grammar : Grammar}
    (finished : draft.finish = .ok grammar) : grammar.WellFormed := by
  obtain ⟨checked, rfl⟩ := checked_of_finish finished
  exact checked.wellFormed

end Draft

/-! ### A finished grammar -/

/-- Nested pairs of two terminals: a nullable nonterminal in the middle of a right side. -/
def Draft.nestedPairs : Draft :=
  Draft.empty.applyEach [.terminals ["a", "b"], .alternative [],
    .rule (.name "S") [.name "a", .name "S", .name "b"]]

def Grammar.nestedPairs : Grammar where
  terminals := ⟨["a", "b"], by decide⟩
  nonterminals := ⟨["S"], by decide⟩
  rules := [⟨1, 0, [.terminal 0, .nonterminal 0, .terminal 1]⟩, ⟨2, 0, []⟩]

theorem finish_nestedPairs : Draft.nestedPairs.finish = .ok Grammar.nestedPairs := by rfl

end Predictive
