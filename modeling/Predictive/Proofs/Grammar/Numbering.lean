import Mathlib.Data.List.Induction
import Mathlib.Data.List.Nodup
import Predictive.Grammar.Numbering
import Predictive.Proofs.Grammar.Draft

/-!
Contract: the grammar that a draft hands out is the draft's rules, numbered.

Owns: the order of names in symbol tables, names and numbers as inverses, the pass that
numbers symbols where it meets them, the rules filed by left side, and what all this makes of
a finished grammar.
Does not own: the checks that a draft has to pass.

A symbol's number never changes once it is given: later names are added behind it
(`index_foldl_add`). So the numbers that a pass gives out are those of the tables it ends with.
-/

namespace Predictive

namespace SymbolTable

/-! ### Names in order -/

/-- Whether names are those of a list, each once, in the order of their first appearance. -/
structure InOrderOf (names occurrences : List String) : Prop where
  nodup : names.Nodup
  mem_iff : ∀ name, name ∈ names ↔ name ∈ occurrences
  ordered : names.Pairwise fun first second =>
    occurrences.idxOf first < occurrences.idxOf second

theorem ofList_concat (names : List String) (name : String) :
    ofList (names ++ [name]) = (ofList names).add name := by
  unfold ofList
  rw [List.foldl_append]
  rfl

theorem inOrderOf_ofList (occurrences : List String) :
    InOrderOf (ofList occurrences).names occurrences where
  nodup := (ofList occurrences).nodup
  mem_iff := mem_names_ofList occurrences
  ordered := by
    induction occurrences using List.reverseRecOn with
    | nil => exact List.Pairwise.nil
    | append_singleton occurrences name inductionHypothesis =>
        have kept : (ofList occurrences).names.Pairwise fun first second =>
            (occurrences ++ [name]).idxOf first < (occurrences ++ [name]).idxOf second := by
          refine inductionHypothesis.imp_of_mem ?_
          intro first second firstMember secondMember earlier
          rw [mem_names_ofList] at firstMember secondMember
          rwa [List.idxOf_append_of_mem firstMember, List.idxOf_append_of_mem secondMember]
        rw [ofList_concat, names_add]
        split
        · exact kept
        · rename_i new
          refine List.pairwise_append.mpr ⟨kept, List.pairwise_singleton _ _, ?_⟩
          intro first member second isName
          rw [List.mem_singleton.mp isName]
          rw [mem_names_ofList] at member new
          rw [List.idxOf_append_of_mem member, List.idxOf_append, if_neg new]
          have bound := List.idxOf_lt_length_of_mem member
          omega

theorem index?_eq_some_iff {table : SymbolTable} {name : String} {number : Nat} :
    table.index? name = some number ↔ table.name? number = some name :=
  ⟨table.name?_index? name number, table.index?_name? name number⟩

theorem name?_index {table : SymbolTable} {name : String} (member : name ∈ table.names) :
    table.name? (table.index name) = some name :=
  List.getElem?_idxOf member

theorem names_prefix_add (table : SymbolTable) (name : String) :
    table.names <+: (table.add name).names := by
  rw [names_add]
  split
  · exact List.prefix_rfl
  · exact List.prefix_append _ _

theorem self_mem_names_add (table : SymbolTable) (name : String) :
    name ∈ (table.add name).names :=
  (mem_names_add table name name).mpr (.inr rfl)

/-- A number stays as it is when names are added behind. -/
theorem index_eq_of_prefix {table later : SymbolTable} (begins : table.names <+: later.names)
    {name : String} (member : name ∈ table.names) : later.index name = table.index name := by
  obtain ⟨added, whole⟩ := begins
  unfold index
  rw [← whole]
  exact List.idxOf_append_of_mem member

end SymbolTable

namespace Numbering

variable {tables : Numbering} {grammar : Grammar}

/-! ### Numbers given in a pass -/

/-- Whether a grammar's tables begin with those that a pass has filled so far. -/
def Within (tables : Numbering) (grammar : Grammar) : Prop :=
  tables.terminals.names <+: grammar.terminals.names ∧
    tables.nonterminals.names <+: grammar.nonterminals.names

theorem symbol_numbered {symbol : NamedSymbol}
    (within : (tables.symbol symbol).2.Within grammar) :
    tables.Within grammar ∧ (tables.symbol symbol).1 = grammar.numberSymbol symbol := by
  cases symbol with
  | terminal name =>
      have grown := (tables.terminals.names_prefix_add name).trans within.1
      have member := tables.terminals.self_mem_names_add name
      refine ⟨⟨grown, within.2⟩, ?_⟩
      exact congrArg Symbol.terminal (SymbolTable.index_eq_of_prefix within.1 member).symm
  | nonterminal name =>
      have grown := (tables.nonterminals.names_prefix_add name).trans within.2
      have member := tables.nonterminals.self_mem_names_add name
      refine ⟨⟨within.1, grown⟩, ?_⟩
      exact congrArg Symbol.nonterminal (SymbolTable.index_eq_of_prefix within.2 member).symm

theorem symbols_numbered {symbols : List NamedSymbol}
    (within : (tables.symbols symbols).2.Within grammar) :
    tables.Within grammar ∧ (tables.symbols symbols).1 = symbols.map grammar.numberSymbol := by
  induction symbols generalizing tables with
  | nil => exact ⟨within, rfl⟩
  | cons first rest inductionHypothesis =>
      have behindFirst : ((tables.symbol first).2.symbols rest).2.Within grammar := within
      obtain ⟨next, others⟩ := inductionHypothesis behindFirst
      obtain ⟨here, number⟩ := symbol_numbered next
      refine ⟨here, ?_⟩
      show (tables.symbol first).1 :: ((tables.symbol first).2.symbols rest).1 = _
      rw [number, others, List.map_cons]

theorem rule_numbered {index : Nat} {named : NamedRule}
    (within : (tables.rule (index + 1) named).2.Within grammar) :
    tables.Within grammar ∧
      (tables.rule (index + 1) named).1 = grammar.numberRule index named := by
  obtain ⟨behindLeft, right⟩ := symbols_numbered within
  have grown := (tables.nonterminals.names_prefix_add named.left).trans behindLeft.2
  have member := tables.nonterminals.self_mem_names_add named.left
  refine ⟨⟨behindLeft.1, grown⟩, ?_⟩
  unfold rule Grammar.numberRule
  dsimp only
  rw [right, ← SymbolTable.index_eq_of_prefix behindLeft.2 member]

/-- The numbers that a pass gives out are those of any tables that it leads to. -/
theorem rules_numbered {index : Nat} {named : List NamedRule}
    (within : (tables.rules (index + 1) named).2.Within grammar) :
    tables.Within grammar ∧ (tables.rules (index + 1) named).1 =
      (named.zipIdx index).map fun (rule, index) => grammar.numberRule index rule := by
  induction named generalizing tables index with
  | nil => exact ⟨within, rfl⟩
  | cons first rest inductionHypothesis =>
      have behindFirst : ((tables.rule (index + 1) first).2.rules (index + 1 + 1) rest).2.Within
          grammar := within
      obtain ⟨next, others⟩ := inductionHypothesis behindFirst
      obtain ⟨here, numbered⟩ := rule_numbered next
      refine ⟨here, ?_⟩
      show (tables.rule (index + 1) first).1 ::
        ((tables.rule (index + 1) first).2.rules (index + 1 + 1) rest).1 = _
      rw [numbered, others, List.zipIdx_cons, List.map_cons]

/-! ### Tables filled by a pass -/

theorem tables_symbols (tables : Numbering) (symbols : List NamedSymbol) :
    (tables.symbols symbols).2 =
      ⟨(symbols.filterMap NamedSymbol.terminalName?).foldl SymbolTable.add tables.terminals,
        (symbols.filterMap NamedSymbol.nonterminalName?).foldl SymbolTable.add
          tables.nonterminals⟩ := by
  induction symbols generalizing tables with
  | nil => rfl
  | cons first rest inductionHypothesis =>
      show ((tables.symbol first).2.symbols rest).2 = _
      rw [inductionHypothesis]
      cases first <;> rfl

theorem tables_rules (tables : Numbering) (number : Nat) (named : List NamedRule) :
    (tables.rules number named).2 =
      ⟨(named.flatMap fun rule => rule.right.filterMap NamedSymbol.terminalName?).foldl
          SymbolTable.add tables.terminals,
        (named.flatMap fun rule =>
          rule.left :: rule.right.filterMap NamedSymbol.nonterminalName?).foldl SymbolTable.add
          tables.nonterminals⟩ := by
  induction named generalizing tables number with
  | nil => rfl
  | cons first rest inductionHypothesis =>
      show ((tables.rule number first).2.rules (number + 1) rest).2 = _
      have afterFirst : (tables.rule number first).2 =
          (symbols { tables with nonterminals := tables.nonterminals.add first.left }
            first.right).2 := rfl
      rw [inductionHypothesis, afterFirst, tables_symbols, List.flatMap_cons, List.flatMap_cons,
        List.foldl_append, List.foldl_append, List.foldl_cons]

end Numbering

namespace Grammar

/-- One pass over named rules numbers them as their finished tables do. -/
theorem ofPass_eq (named : List NamedRule) : ofPass named = ofNamedRules named := by
  have tables : (Numbering.empty.rules 1 named).2 =
      ⟨(ofNamedRules named).terminals, (ofNamedRules named).nonterminals⟩ :=
    Numbering.tables_rules Numbering.empty 1 named
  have within : (Numbering.empty.rules (0 + 1) named).2.Within (ofNamedRules named) := by
    rw [Nat.zero_add, tables]
    exact ⟨List.prefix_rfl, List.prefix_rfl⟩
  have rules := (Numbering.rules_numbered within).2
  rw [← rules_ofNamedRules, Nat.zero_add] at rules
  unfold ofPass
  dsimp only
  rw [tables, rules]

/-! ### Names given back -/

section Names

variable {grammar : Grammar}

theorem nameSymbol_numberSymbol {symbol : NamedSymbol} (named : grammar.Names symbol) :
    grammar.nameSymbol (grammar.numberSymbol symbol) = symbol := by
  cases symbol with
  | terminal name =>
      show NamedSymbol.terminal ((grammar.terminals.name? (grammar.terminals.index name)).getD "?")
        = .terminal name
      rw [SymbolTable.name?_index named, Option.getD_some]
  | nonterminal name =>
      show NamedSymbol.nonterminal
        ((grammar.nonterminals.name? (grammar.nonterminals.index name)).getD "?") =
          .nonterminal name
      rw [SymbolTable.name?_index named, Option.getD_some]

theorem nameRule_numberRule {index : Nat} {named : NamedRule}
    (left : named.left ∈ grammar.nonterminals.names)
    (right : ∀ symbol ∈ named.right, grammar.Names symbol) :
    grammar.nameRule (grammar.numberRule index named) = named := by
  unfold nameRule numberRule nonterminalName
  rw [SymbolTable.name?_index left, Option.getD_some, List.map_map]
  have sameRight : named.right.map (grammar.nameSymbol ∘ grammar.numberSymbol) =
      named.right.map id := by
    apply List.map_congr_left
    intro symbol member
    exact nameSymbol_numberSymbol (right symbol member)
  rw [sameRight, List.map_id]

end Names

theorem nameRule_ofNamedRules (rules : List NamedRule) :
    (ofNamedRules rules).rules.map (ofNamedRules rules).nameRule = rules := by
  rw [rules_ofNamedRules, List.map_map]
  calc rules.zipIdx.map _
    _ = rules.zipIdx.map Prod.fst := by
        apply List.map_congr_left
        rintro ⟨named, index⟩ member
        have ofRules := List.mem_of_getElem? (List.mk_mem_zipIdx_iff_getElem?.mp member)
        exact nameRule_numberRule (names_left rules ofRules)
          fun symbol inRight => names_right rules ofRules inRight
    _ = rules := List.zipIdx_map_fst 0 rules

theorem number_ofNamedRules (rules : List NamedRule) :
    (ofNamedRules rules).rules.map Rule.number = List.range' 1 rules.length := by
  rw [rules_ofNamedRules, List.map_map]
  calc rules.zipIdx.map _
    _ = (rules.zipIdx.map Prod.snd).map (1 + ·) := by
        rw [List.map_map]
        apply List.map_congr_left
        rintro ⟨named, index⟩ _
        exact Nat.add_comm index 1
    _ = List.range' 1 rules.length := by
        rw [List.zipIdx_map_snd, List.map_add_range']

theorem nodup_ofNamedRules (rules : List NamedRule) : (ofNamedRules rules).rules.Nodup := by
  apply List.Nodup.of_map Rule.number
  rw [number_ofNamedRules]
  exact List.nodup_range'

/-- A terminal that no rule mentions has no number. -/
theorem contains_terminals_eq_false {rules : List NamedRule} {name : String}
    (unmentioned : ∀ rule ∈ rules, .terminal name ∉ rule.right) :
    (ofNamedRules rules).terminals.contains name = false := by
  unfold SymbolTable.contains
  rw [← Bool.not_eq_true, List.contains_iff_mem]
  intro member
  obtain ⟨rule, ofRules, inRight⟩ :=
    List.mem_flatMap.mp ((SymbolTable.mem_names_ofList _ _).mp member)
  obtain ⟨symbol, symbolMember, isName⟩ := List.mem_filterMap.mp inRight
  cases symbol with
  | nonterminal other => exact absurd isName (by simp [NamedSymbol.terminalName?])
  | terminal other =>
      cases isName
      exact unmentioned rule ofRules symbolMember

/-! ### Rules by left side -/

variable {grammar : Grammar}

theorem getElem?_foldl_file (rules : List Rule) (start : Nat) (file : Array (List Nat))
    (left : Nonterminal) :
    ((rules.zipIdx start).foldl
        (fun file (rule, place) => file.modify rule.left fun places => places ++ [place])
        file)[left]? =
      file[left]?.map fun places =>
        places ++ ((rules.zipIdx start).filter fun entry => entry.1.left == left).map Prod.snd := by
  induction rules generalizing start file with
  | nil => simp
  | cons rule rest inductionHypothesis =>
      rw [List.zipIdx_cons, List.foldl_cons, inductionHypothesis, Array.getElem?_modify]
      by_cases same : rule.left = left
      · rw [if_pos same, Option.map_map, List.filter_cons_of_pos (by simpa using same)]
        congr 1
        funext places
        simp
      · rw [if_neg same, List.filter_cons_of_neg (by simpa using same)]

/-- Under a known left side the rules are filed that have it, in their order. -/
theorem filedRules_of_lt {left : Nonterminal} (known : left < grammar.nonterminals.size) :
    grammar.filedRules left = grammar.rulesFor left := by
  have places : grammar.filed[left]? = some
      ((grammar.rules.zipIdx.filter fun entry => entry.1.left == left).map Prod.snd) := by
    unfold filed
    rw [getElem?_foldl_file, Array.getElem?_replicate, if_pos known, Option.map_some,
      List.nil_append]
  unfold filedRules
  rw [places]
  dsimp only
  rw [List.filterMap_map]
  calc (grammar.rules.zipIdx.filter fun entry => entry.1.left == left).filterMap _
    _ = (grammar.rules.zipIdx.filter fun entry => entry.1.left == left).filterMap
          fun entry => some entry.1 := by
        apply List.filterMap_congr
        intro entry member
        exact List.mem_zipIdx_iff_getElem?.mp (List.mem_filter.mp member).1
    _ = (grammar.rules.zipIdx.map Prod.fst).filter fun rule => rule.left == left := by
        rw [List.filterMap_eq_map', List.filter_map]
        rfl
    _ = grammar.rulesFor left := by
        rw [List.zipIdx_map_fst]
        rfl

theorem rulesFor_of_size_le (left_known : ∀ rule ∈ grammar.rules,
    rule.left < grammar.nonterminals.size) {left : Nonterminal}
    (unknown : grammar.nonterminals.size ≤ left) : grammar.rulesFor left = [] := by
  unfold rulesFor
  rw [List.filter_eq_nil_iff]
  intro rule member same
  rw [← beq_iff_eq.mp same] at unknown
  exact Nat.not_lt_of_le unknown (left_known rule member)

theorem filedRules_eq (left_known : ∀ rule ∈ grammar.rules,
    rule.left < grammar.nonterminals.size) (left : Nonterminal) :
    grammar.filedRules left = grammar.rulesFor left := by
  rcases Nat.lt_or_ge left grammar.nonterminals.size with known | unknown
  · exact filedRules_of_lt known
  · have nothing : grammar.filed[left]? = none := by
      unfold filed
      rw [getElem?_foldl_file, Array.getElem?_replicate, if_neg (by omega), Option.map_none]
    unfold filedRules
    rw [nothing, rulesFor_of_size_le left_known unknown]

/-- The rules fall apart into those of the nonterminals. -/
theorem perm_flatMap_rulesFor (nodup : grammar.rules.Nodup)
    (left_known : ∀ rule ∈ grammar.rules, rule.left < grammar.nonterminals.size) :
    ((List.range grammar.nonterminals.size).flatMap grammar.rulesFor).Perm grammar.rules := by
  have nodupParts : ((List.range grammar.nonterminals.size).flatMap grammar.rulesFor).Nodup := by
    refine List.nodup_flatMap.mpr ⟨fun left _ => nodup.filter _, ?_⟩
    refine List.nodup_range.imp fun different => ?_
    intro rule inFirst inSecond
    exact different ((mem_rulesFor.mp inFirst).2.symm.trans (mem_rulesFor.mp inSecond).2)
  rw [List.perm_ext_iff_of_nodup nodupParts nodup]
  intro rule
  rw [List.mem_flatMap]
  constructor
  · rintro ⟨left, _, member⟩
    exact (mem_rulesFor.mp member).1
  · intro member
    exact ⟨rule.left, List.mem_range.mpr (left_known rule member),
      mem_rulesFor.mpr ⟨member, rfl⟩⟩

end Grammar

/-- What makes a grammar the rules of a draft and nothing else, in numbers that fit. -/
structure Draft.IsKeptBy (draft : Draft) (grammar : Grammar) : Prop where
  /-- By their names the rules are those of the draft, in their order. -/
  named : grammar.rules.map grammar.nameRule = draft.rules
  numbers : grammar.rules.map Rule.number = List.range' 1 draft.rules.length
  /-- Giving each symbol its number where a pass over the rules meets it leads to the same. -/
  pass : Grammar.ofPass draft.rules = grammar
  left_known : ∀ rule ∈ grammar.rules, rule.left < grammar.nonterminals.size
  right_known : ∀ rule ∈ grammar.rules, grammar.KnowsAll rule.right
  nonterminals : SymbolTable.InOrderOf grammar.nonterminals.names (draft.rules.flatMap fun rule =>
    rule.left :: rule.right.filterMap NamedSymbol.nonterminalName?)
  terminals : SymbolTable.InOrderOf grammar.terminals.names (draft.rules.flatMap fun rule =>
    rule.right.filterMap NamedSymbol.terminalName?)
  /-- To be declared is not enough for a terminal. -/
  unused : ∀ name ∈ draft.declared, (∀ rule ∈ draft.rules, .terminal name ∉ rule.right) →
    grammar.terminals.contains name = false
  has_rule : ∀ left < grammar.nonterminals.size, grammar.rulesFor left ≠ []
  rulesFor_sublist : ∀ left, (grammar.rulesFor left).Sublist grammar.rules
  mem_rulesFor_iff : ∀ left rule, rule ∈ grammar.rulesFor left ↔
    rule ∈ grammar.rules ∧ rule.left = left
  /-- The rules filed by left side are found again, those of unknown left sides excepted. -/
  filed : ∀ left, grammar.filedRules left = grammar.rulesFor left
  partition :
    ((List.range grammar.nonterminals.size).flatMap grammar.rulesFor).Perm grammar.rules
  distinct : grammar.rules.Pairwise fun first second =>
    (first.left, first.right) ≠ (second.left, second.right)
  start : (grammar.rule? 1).map Rule.left = some grammar.start
  terminal_inverse : ∀ name number,
    grammar.terminals.index? name = some number ↔ grammar.terminals.name? number = some name
  nonterminal_inverse : ∀ name number,
    grammar.nonterminals.index? name = some number ↔
      grammar.nonterminals.name? number = some name

namespace Draft

section Checked

variable {draft : Draft} (checked : Checked draft.rules)

include checked

theorem Checked.rulesFor_ne_nil {left : Nonterminal}
    (known : left < (Grammar.ofNamedRules draft.rules).nonterminals.size) :
    (Grammar.ofNamedRules draft.rules).rulesFor left ≠ [] := by
  obtain ⟨rule, member, ofLeft⟩ := checked.wellFormed.has_rule left known
  exact List.ne_nil_of_mem (Grammar.mem_rulesFor.mpr ⟨member, ofLeft⟩)

theorem Checked.distinct_rules : (Grammar.ofNamedRules draft.rules).rules.Pairwise
    fun first second => (first.left, first.right) ≠ (second.left, second.right) := by
  apply (Grammar.nodup_ofNamedRules draft.rules).imp_of_mem
  intro first second firstMember secondMember different same
  obtain ⟨lefts, rights⟩ := Prod.mk.inj same
  apply different
  exact checked.wellFormed.distinct first firstMember second secondMember lefts rights

theorem Checked.start_eq : ((Grammar.ofNamedRules draft.rules).rule? 1).map Rule.left =
    some (Grammar.ofNamedRules draft.rules).start := by
  unfold Grammar.start Grammar.rule?
  cases rules : (Grammar.ofNamedRules draft.rules).rules with
  | nil => exact absurd rules checked.wellFormed.rules_ne_nil
  | cons rule rest => rfl

theorem Checked.isKeptBy : draft.IsKeptBy (Grammar.ofNamedRules draft.rules) where
  named := Grammar.nameRule_ofNamedRules draft.rules
  numbers := Grammar.number_ofNamedRules draft.rules
  pass := Grammar.ofPass_eq draft.rules
  left_known := checked.wellFormed.left_known
  right_known := checked.wellFormed.right_known
  nonterminals := SymbolTable.inOrderOf_ofList _
  terminals := SymbolTable.inOrderOf_ofList _
  unused := fun _ _ unmentioned => Grammar.contains_terminals_eq_false unmentioned
  has_rule := fun _ known => checked.rulesFor_ne_nil known
  rulesFor_sublist := fun _ => List.filter_sublist
  mem_rulesFor_iff := fun _ _ => Grammar.mem_rulesFor
  filed := Grammar.filedRules_eq checked.wellFormed.left_known
  partition := Grammar.perm_flatMap_rulesFor (Grammar.nodup_ofNamedRules draft.rules)
    checked.wellFormed.left_known
  distinct := checked.distinct_rules
  start := checked.start_eq
  terminal_inverse := fun _ _ => SymbolTable.index?_eq_some_iff
  nonterminal_inverse := fun _ _ => SymbolTable.index?_eq_some_iff

end Checked

/-- What finishing a draft hands out is its rules, complete and in order, over numbers that are
in range and mean one symbol each. -/
theorem finish_keeps {draft : Draft} {grammar : Grammar} (finished : draft.finish = .ok grammar) :
    draft.IsKeptBy grammar := by
  obtain ⟨checked, rfl⟩ := checked_of_finish finished
  exact checked.isKeptBy

/-- A name of both kinds, and a declared terminal that no rule mentions. -/
def sharedName : Draft :=
  Draft.empty.applyEach [.terminals ["b", "c"],
    .rule (.name "S") [.literal "S", .name "T"], .rule (.name "T") [.name "b"]]

/-- The shared name has a number of each kind, the unused terminal has none. -/
theorem finish_keeps_sharedName : ∃ grammar, sharedName.finish = .ok grammar ∧
    grammar.nonterminals.names = ["S", "T"] ∧ grammar.terminals.names = ["S", "b"] ∧
    "c" ∈ sharedName.declared ∧ grammar.terminals.contains "c" = false ∧
    grammar.rules.map grammar.nameRule =
      [⟨"S", [.terminal "S", .nonterminal "T"]⟩, ⟨"T", [.terminal "b"]⟩] := by
  have finished : sharedName.finish = .ok (Grammar.ofNamedRules sharedName.rules) := by rfl
  have kept := finish_keeps finished
  refine ⟨_, finished, by decide, by decide, by decide, ?_, kept.named⟩
  exact kept.unused "c" (by decide) (by decide)

end Draft

end Predictive
