import Predictive.Proofs.Grammar.Reading

/-!
Contract: what the checks of a finished grammar leave to rely on.

Owns: known symbols, rankings of nonterminals, and well-formed grammars, with what
readings keep of them.
Does not own: that finishing a draft gives a well-formed grammar.

A ranking is how the absence of left recursion is used: a nonterminal that a rule can
begin with, once everything before it is erased, ranks below the rule's left side.
Together with the room left for terminals this is a measure (`IsRanking.work_lt`) along
which FIRST, the length of derivations and the existence of beginnings are argued.
-/

namespace Predictive

namespace Grammar

/-- Whether a symbol's number was given out by the grammar. -/
def Knows (grammar : Grammar) : Symbol → Prop
  | .terminal number => number < grammar.terminals.size
  | .nonterminal number => number < grammar.nonterminals.size

def KnowsAll (grammar : Grammar) (form : List Symbol) : Prop :=
  ∀ symbol ∈ form, grammar.Knows symbol

/-- A measure of nonterminals that falls along left corners. -/
structure IsRanking (grammar : Grammar) (rank : Nonterminal → Nat) : Prop where
  bounded : ∀ nonterminal, rank nonterminal < grammar.nonterminals.size
  falls : ∀ rule ∈ grammar.rules, ∀ before nonterminal after,
    rule.right = before ++ .nonterminal nonterminal :: after →
    grammar.Derives before [] → rank nonterminal < rank rule.left

structure WellFormed (grammar : Grammar) : Prop where
  rules_ne_nil : grammar.rules ≠ []
  numbered : ∀ number rule, grammar.rule? number = some rule → rule.number = number
  left_known : ∀ rule ∈ grammar.rules, rule.left < grammar.nonterminals.size
  right_known : ∀ rule ∈ grammar.rules, grammar.KnowsAll rule.right
  has_rule : ∀ nonterminal < grammar.nonterminals.size,
    ∃ rule ∈ grammar.rules, rule.left = nonterminal
  distinct : ∀ first ∈ grammar.rules, ∀ second ∈ grammar.rules,
    first.left = second.left → first.right = second.right → first = second
  ranked : ∃ rank, grammar.IsRanking rank

variable {grammar : Grammar}

theorem mem_rulesFor {rule : Rule} {nonterminal : Nonterminal} :
    rule ∈ grammar.rulesFor nonterminal ↔ rule ∈ grammar.rules ∧ rule.left = nonterminal := by
  simp [rulesFor]

/-! ### Known symbols -/

theorem knowsAll_append {left right : List Symbol} :
    grammar.KnowsAll (left ++ right) ↔ grammar.KnowsAll left ∧ grammar.KnowsAll right := by
  simp only [KnowsAll, List.mem_append, or_imp, forall_and]

theorem knowsAll_cons {symbol : Symbol} {form : List Symbol} :
    grammar.KnowsAll (symbol :: form) ↔ grammar.Knows symbol ∧ grammar.KnowsAll form := by
  simp only [KnowsAll, List.mem_cons, forall_eq_or_imp]

theorem knowsAll_nil : grammar.KnowsAll [] := by
  intro symbol member
  exact absurd member List.not_mem_nil

theorem WellFormed.start_known (wellFormed : grammar.WellFormed) :
    grammar.start < grammar.nonterminals.size := by
  unfold start
  cases rules : grammar.rules with
  | nil => exact absurd rules wellFormed.rules_ne_nil
  | cons rule rest => exact wellFormed.left_known rule (by simp [rules])

theorem WellFormed.rule?_number (wellFormed : grammar.WellFormed) {rule : Rule}
    (member : rule ∈ grammar.rules) : grammar.rule? rule.number = some rule := by
  obtain ⟨number, found⟩ := exists_rule?_of_mem member
  rwa [wellFormed.numbered number rule found]

/-- A reading of known symbols passes known terminals and leaves known symbols. -/
theorem WellFormed.known_of_reads (wellFormed : grammar.WellFormed) {form rest : List Symbol}
    {numbers : List Nat} {word : List Terminal} (reads : grammar.Reads form numbers word rest)
    (known : grammar.KnowsAll form) :
    (∀ terminal ∈ word, terminal < grammar.terminals.size) ∧ grammar.KnowsAll rest := by
  induction reads with
  | stop form => exact ⟨by simp, known⟩
  | pass terminal onward inductionHypothesis =>
      obtain ⟨headKnown, tailKnown⟩ := knowsAll_cons.mp known
      obtain ⟨wordKnown, restKnown⟩ := inductionHypothesis tailKnown
      refine ⟨?_, restKnown⟩
      intro other member
      rcases List.mem_cons.mp member with rfl | later
      · exact headKnown
      · exact wordKnown other later
  | @expand number rule form rest numbers word found onward inductionHypothesis =>
      apply inductionHypothesis
      have right := wellFormed.right_known rule (mem_rules_of_rule? found)
      exact knowsAll_append.mpr ⟨right, (knowsAll_cons.mp known).2⟩

/-! ### The measure of an expansion -/

/-- Rooms count first, ranks second. -/
def work (grammar : Grammar) (rank : Nonterminal → Nat) (nonterminal : Nonterminal)
    (room : Nat) : Nat :=
  room * grammar.nonterminals.size + rank nonterminal

/-- Behind a beginning of `length` terminals an occurrence in a rule has less work than
the rule's left side: less room if the beginning is a proper one, else a lower rank. -/
theorem IsRanking.work_lt {rank : Nonterminal → Nat} (ranking : grammar.IsRanking rank)
    {rule : Rule} (member : rule ∈ grammar.rules) {before after : List Symbol}
    {nonterminal : Nonterminal} (split : rule.right = before ++ .nonterminal nonterminal :: after)
    {numbers : List Nat} {word : List Terminal}
    (reads : grammar.Reads before numbers word []) {room : Nat} (fits : word.length < room) :
    grammar.work rank nonterminal (room - word.length) < grammar.work rank rule.left room := by
  unfold work
  cases word with
  | nil =>
      have erased : grammar.Derives before [] := ⟨numbers, reads.replay⟩
      have lower := ranking.falls rule member before nonterminal after split erased
      simpa using lower
  | cons terminal word =>
      have lessRoom : room - (terminal :: word).length + 1 ≤ room := by
        simp only [List.length_cons] at fits ⊢
        omega
      calc
        (room - (terminal :: word).length) * grammar.nonterminals.size + rank nonterminal
          < (room - (terminal :: word).length) * grammar.nonterminals.size
              + grammar.nonterminals.size := Nat.add_lt_add_left (ranking.bounded nonterminal) _
        _ = (room - (terminal :: word).length + 1) * grammar.nonterminals.size :=
            (Nat.succ_mul _ _).symm
        _ ≤ room * grammar.nonterminals.size := Nat.mul_le_mul_right _ lessRoom
        _ ≤ room * grammar.nonterminals.size + rank rule.left := Nat.le_add_right _ _

end Grammar

end Predictive
