import Mathlib.Data.List.Induction
import Predictive.Proofs.Grammar.Rewriting
import Predictive.Proofs.Grammar.WellFormed

/-!
Contract: the laws of beginnings of derived words, before anything is computed.

Owns: beginnings of single symbols, of concatenations, of other lengths, and that a
well-formed grammar leaves no form without a beginning.
Does not own: the computation of FIRST.

`isBeginning_append` splits at a concatenation whatever the grammar. The truncated
concatenation of two beginnings (`isBeginning_append_iff_take`) asks for more: behind a
full beginning of the left part the right part has to have some beginning too, and that
is where the grammar has to be well formed.
-/

namespace Predictive

namespace Grammar

variable {grammar : Grammar}

theorem isBeginning_iff_reads {length : Nat} {form : List Symbol} {word : List Terminal} :
    grammar.IsBeginning length form word ↔
      (word.length < length ∧ ∃ numbers, grammar.Reads form numbers word []) ∨
        (word.length = length ∧ ∃ numbers rest, grammar.Reads form numbers word rest) := by
  unfold IsBeginning
  rw [derives_word_iff, derives_front_iff]

/-- A short beginning is a word of the form, a full one stands in front of a derived form. -/
theorem isBeginning_iff_rewrites {length : Nat} {form : List Symbol} {word : List Terminal} :
    grammar.IsBeginning length form word ↔
      (word.length < length ∧ grammar.Rewrites form (terminalString word)) ∨
        (word.length = length ∧ ∃ rest, grammar.Derives form (terminalString word ++ rest)) := by
  rw [IsBeginning, derives_iff_rewrites]

theorem IsBeginning.length_le {length : Nat} {form : List Symbol} {word : List Terminal}
    (beginning : grammar.IsBeginning length form word) : word.length ≤ length := by
  rcases beginning with ⟨shorter, _⟩ | ⟨same, _⟩
  · exact Nat.le_of_lt shorter
  · exact Nat.le_of_eq same

theorem IsBeginning.reads_of_lt {length : Nat} {form : List Symbol} {word : List Terminal}
    (beginning : grammar.IsBeginning length form word) (shorter : word.length < length) :
    ∃ numbers, grammar.Reads form numbers word [] := by
  rcases isBeginning_iff_reads.mp beginning with ⟨_, reads⟩ | ⟨same, _⟩
  · exact reads
  · omega

theorem Reads.isBeginning_take {form : List Symbol} {numbers : List Nat} {word : List Terminal}
    (reads : grammar.Reads form numbers word []) (length : Nat) :
    grammar.IsBeginning length form (word.take length) := by
  rw [isBeginning_iff_reads]
  by_cases short : word.length < length
  · rw [List.take_of_length_le (Nat.le_of_lt short)]
    exact .inl ⟨short, numbers, reads⟩
  · refine .inr ⟨List.length_take_of_le (Nat.le_of_not_lt short), ?_⟩
    refine derives_front_iff.mp ⟨terminalString (word.drop length), numbers, ?_⟩
    rw [reads.replay, List.append_nil, terminalString, terminalString, terminalString,
      ← List.map_append, List.take_append_drop]

/-! ### Single symbols -/

theorem isBeginning_nil {length : Nat} {word : List Terminal} :
    grammar.IsBeginning length [] word ↔ word = [] := by
  rw [isBeginning_iff_reads]
  constructor
  · rintro (⟨_, _, reads⟩ | ⟨_, _, _, reads⟩)
    · exact (reads_nil_iff.mp reads).2.1
    · exact (reads_nil_iff.mp reads).2.1
  · rintro rfl
    rcases Nat.eq_zero_or_pos length with zero | positive
    · exact .inr ⟨zero.symm, [], [], reads_nil_iff.mpr ⟨rfl, rfl, rfl⟩⟩
    · exact .inl ⟨positive, [], reads_nil_iff.mpr ⟨rfl, rfl, rfl⟩⟩

theorem isBeginning_zero {form : List Symbol} {word : List Terminal} :
    grammar.IsBeginning 0 form word ↔ word = [] := by
  constructor
  · intro beginning
    exact List.length_eq_zero_iff.mp (Nat.le_zero.mp beginning.length_le)
  · rintro rfl
    exact .inr ⟨rfl, form, Derives.refl grammar form⟩

theorem reads_terminal_iff {terminal : Terminal} {numbers : List Nat} {word : List Terminal}
    {rest : List Symbol} :
    grammar.Reads [.terminal terminal] numbers word rest ↔
      numbers = [] ∧ ((word = [] ∧ rest = [.terminal terminal]) ∨
        (word = [terminal] ∧ rest = [])) := by
  constructor
  · intro reads
    cases reads with
    | stop => exact ⟨rfl, .inl ⟨rfl, rfl⟩⟩
    | pass _ onward =>
        obtain ⟨rfl, rfl, rfl⟩ := reads_nil_iff.mp onward
        exact ⟨rfl, .inr ⟨rfl, rfl⟩⟩
  · rintro ⟨rfl, ⟨rfl, rfl⟩ | ⟨rfl, rfl⟩⟩
    · exact .stop _
    · exact .pass terminal (.stop [])

theorem isBeginning_terminal {length : Nat} (positive : 0 < length) {terminal : Terminal}
    {word : List Terminal} :
    grammar.IsBeginning length [.terminal terminal] word ↔ word = [terminal] := by
  rw [isBeginning_iff_reads]
  have passed : grammar.Reads [.terminal terminal] [] [terminal] [] := .pass terminal (.stop [])
  constructor
  · rintro (⟨_, _, reads⟩ | ⟨full, _, _, reads⟩)
    · rcases (reads_terminal_iff.mp reads).2 with ⟨_, impossible⟩ | ⟨same, _⟩
      · exact absurd impossible (by simp)
      · exact same
    · rcases (reads_terminal_iff.mp reads).2 with ⟨rfl, _⟩ | ⟨same, _⟩
      · simp only [List.length_nil] at full
        omega
      · exact same
  · rintro rfl
    by_cases one : length = 1
    · exact .inr ⟨one.symm, [], [], passed⟩
    · refine .inl ⟨?_, [], passed⟩
      simp only [List.length_singleton]
      omega

theorem isBeginning_nonterminal {length : Nat} (positive : 0 < length)
    {nonterminal : Nonterminal} {behind : List Symbol} {word : List Terminal} :
    grammar.IsBeginning length (.nonterminal nonterminal :: behind) word ↔
      ∃ rule ∈ grammar.rulesFor nonterminal,
        grammar.IsBeginning length (rule.right ++ behind) word := by
  constructor
  · intro beginning
    rcases isBeginning_iff_reads.mp beginning with ⟨short, numbers, reads⟩ |
      ⟨full, numbers, rest, reads⟩
    · cases reads with
      | @expand number rule _ _ numbers _ found onward =>
          refine ⟨rule, mem_rulesFor.mpr ⟨mem_rules_of_rule? found, rfl⟩, ?_⟩
          exact isBeginning_iff_reads.mpr (.inl ⟨short, numbers, onward⟩)
    · cases reads with
      | stop =>
          simp only [List.length_nil] at full
          omega
      | @expand number rule _ _ numbers _ found onward =>
          refine ⟨rule, mem_rulesFor.mpr ⟨mem_rules_of_rule? found, rfl⟩, ?_⟩
          exact isBeginning_iff_reads.mpr (.inr ⟨full, numbers, rest, onward⟩)
  · rintro ⟨rule, member, beginning⟩
    obtain ⟨inRules, rfl⟩ := mem_rulesFor.mp member
    obtain ⟨number, found⟩ := exists_rule?_of_mem inRules
    rcases isBeginning_iff_reads.mp beginning with ⟨short, numbers, reads⟩ |
      ⟨full, numbers, rest, reads⟩
    · exact isBeginning_iff_reads.mpr (.inl ⟨short, _, .expand found reads⟩)
    · exact isBeginning_iff_reads.mpr (.inr ⟨full, _, rest, .expand found reads⟩)

/-! ### Concatenations -/

/-- A beginning of a concatenation lies in the left part and fills the length, or it is a
word of the left part with a beginning of the right part in the room that is left. -/
theorem isBeginning_append {length : Nat} {left right : List Symbol} {word : List Terminal} :
    grammar.IsBeginning length (left ++ right) word ↔
      (word.length = length ∧ grammar.IsBeginning length left word) ∨
        ∃ front back, front.length < length ∧ grammar.IsBeginning length left front ∧
          grammar.IsBeginning (length - front.length) right back ∧ word = front ++ back := by
  constructor
  · intro beginning
    rcases isBeginning_iff_reads.mp beginning with ⟨short, numbers, reads⟩ |
      ⟨full, numbers, rest, reads⟩
    · rcases reads.split with ⟨remaining, inside, nothing⟩ |
        ⟨first, second, front, back, rfl, rfl, frontReads, backReads⟩
      · obtain ⟨rfl, rfl⟩ := List.append_eq_nil_iff.mp nothing.symm
        refine .inr ⟨word, [], short, ?_, isBeginning_nil.mpr rfl, (List.append_nil word).symm⟩
        exact isBeginning_iff_reads.mpr (.inl ⟨short, numbers, inside⟩)
      · rw [List.length_append] at short
        refine .inr ⟨front, back, by omega, ?_, ?_, rfl⟩
        · exact isBeginning_iff_reads.mpr (.inl ⟨by omega, first, frontReads⟩)
        · exact isBeginning_iff_reads.mpr (.inl ⟨by omega, second, backReads⟩)
    · rcases reads.split with ⟨remaining, inside, _⟩ |
        ⟨first, second, front, back, rfl, rfl, frontReads, backReads⟩
      · exact .inl ⟨full, isBeginning_iff_reads.mpr (.inr ⟨full, numbers, remaining, inside⟩)⟩
      · rw [List.length_append] at full
        by_cases fills : front.length = length
        · have nothing : back = [] := List.length_eq_zero_iff.mp (by omega)
          subst nothing
          rw [List.append_nil]
          exact .inl ⟨fills, isBeginning_iff_reads.mpr (.inr ⟨fills, first, [], frontReads⟩)⟩
        · refine .inr ⟨front, back, by omega, ?_, ?_, rfl⟩
          · exact isBeginning_iff_reads.mpr (.inl ⟨by omega, first, frontReads⟩)
          · exact isBeginning_iff_reads.mpr (.inr ⟨by omega, second, rest, backReads⟩)
  · rintro (⟨full, beginning⟩ | ⟨front, back, short, frontBeginning, backBeginning, rfl⟩)
    · have inside : ∃ numbers rest, grammar.Reads left numbers word rest := by
        rcases isBeginning_iff_reads.mp beginning with ⟨shorter, _⟩ | ⟨_, reads⟩
        · omega
        · exact reads
      obtain ⟨numbers, rest, reads⟩ := inside
      exact isBeginning_iff_reads.mpr (.inr ⟨full, numbers, rest ++ right, reads.behind right⟩)
    · obtain ⟨first, frontReads⟩ := frontBeginning.reads_of_lt short
      rw [isBeginning_iff_reads, List.length_append]
      rcases isBeginning_iff_reads.mp backBeginning with ⟨shorter, second, backReads⟩ |
        ⟨fills, second, rest, backReads⟩
      · exact .inl ⟨by omega, first ++ second, frontReads.append backReads⟩
      · exact .inr ⟨by omega, first ++ second, rest, frontReads.append backReads⟩

theorem isBeginning_terminal_cons {length : Nat} (positive : 0 < length) {terminal : Terminal}
    {behind : List Symbol} {word : List Terminal} :
    grammar.IsBeginning length (.terminal terminal :: behind) word ↔
      ∃ back, grammar.IsBeginning (length - 1) behind back ∧ word = terminal :: back := by
  rw [← List.singleton_append, isBeginning_append]
  simp only [isBeginning_terminal positive]
  constructor
  · rintro (⟨full, rfl⟩ | ⟨front, back, short, rfl, beginning, rfl⟩)
    · have one : length - 1 = 0 := by simp [← full]
      exact ⟨[], by rw [one, isBeginning_zero], rfl⟩
    · exact ⟨back, beginning, rfl⟩
  · rintro ⟨back, beginning, rfl⟩
    by_cases one : length = 1
    · subst one
      rw [isBeginning_zero.mp beginning]
      exact .inl ⟨rfl, rfl⟩
    · refine .inr ⟨[terminal], back, ?_, rfl, beginning, rfl⟩
      rw [List.length_singleton]
      omega

/-! ### Other lengths -/

theorem IsBeginning.take {length shorter : Nat} {form : List Symbol} {word : List Terminal}
    (beginning : grammar.IsBeginning length form word) (le : shorter ≤ length) :
    grammar.IsBeginning shorter form (word.take shorter) := by
  rcases isBeginning_iff_reads.mp beginning with ⟨_, numbers, reads⟩ |
    ⟨full, numbers, rest, reads⟩
  · exact reads.isBeginning_take shorter
  · have lengthTake : (word.take shorter).length = shorter :=
      List.length_take_of_le (by omega)
    refine .inr ⟨lengthTake, terminalString (word.drop shorter) ++ rest, numbers, ?_⟩
    rw [reads.replay, ← List.append_assoc, terminalString, terminalString, terminalString,
      ← List.map_append, List.take_append_drop]

/-- If every nonterminal of a form has a beginning in the room that the words before it
leave, then so does the form. -/
theorem exists_isBeginning_of_nonterminals {length : Nat} {form : List Symbol}
    (each : ∀ before nonterminal after, form = before ++ .nonterminal nonterminal :: after →
      ∀ front, grammar.IsBeginning length before front → front.length < length →
        ∃ back, grammar.IsBeginning (length - front.length) [.nonterminal nonterminal] back) :
    ∃ word, grammar.IsBeginning length form word := by
  induction form using List.reverseRecOn with
  | nil => exact ⟨[], isBeginning_nil.mpr rfl⟩
  | append_singleton before symbol inductionHypothesis =>
      obtain ⟨front, beginning⟩ := inductionHypothesis (by
        intro earlier nonterminal after split
        exact each earlier nonterminal (after ++ [symbol]) (by rw [split]; simp))
      by_cases full : front.length = length
      · exact ⟨front, isBeginning_append.mpr (.inl ⟨full, beginning⟩)⟩
      · have short : front.length < length :=
          Nat.lt_of_le_of_ne beginning.length_le full
        have onward : ∃ back, grammar.IsBeginning (length - front.length) [symbol] back := by
          cases symbol with
          | terminal terminal => exact ⟨[terminal], (isBeginning_terminal (by omega)).mpr rfl⟩
          | nonterminal nonterminal => exact each before nonterminal [] rfl front beginning short
        obtain ⟨back, backBeginning⟩ := onward
        exact ⟨front ++ back,
          isBeginning_append.mpr (.inr ⟨front, back, short, beginning, backBeginning, rfl⟩)⟩

section WellFormed

variable (wellFormed : grammar.WellFormed)

include wellFormed

theorem WellFormed.exists_isBeginning_nonterminal {nonterminal : Nonterminal}
    (known : nonterminal < grammar.nonterminals.size) (length : Nat) :
    ∃ word, grammar.IsBeginning length [.nonterminal nonterminal] word := by
  obtain ⟨rank, ranking⟩ := wellFormed.ranked
  -- Any rule will do; the work of what it puts in front is smaller.
  induction bound : grammar.work rank nonterminal length using Nat.strongRecOn
    generalizing nonterminal length with
  | ind work inductionHypothesis =>
      subst bound
      rcases Nat.eq_zero_or_pos length with zero | positive
      · subst zero
        exact ⟨[], isBeginning_zero.mpr rfl⟩
      · obtain ⟨rule, member, rfl⟩ := wellFormed.has_rule nonterminal known
        have onRight : ∃ word, grammar.IsBeginning length rule.right word := by
          apply exists_isBeginning_of_nonterminals
          intro before inner after split front beginning short
          obtain ⟨numbers, reads⟩ := beginning.reads_of_lt short
          have innerKnown : grammar.Knows (.nonterminal inner) :=
            wellFormed.right_known rule member _ (by rw [split]; simp)
          exact inductionHypothesis _ (ranking.work_lt member split reads short) innerKnown
            (length - front.length) rfl
        obtain ⟨word, beginning⟩ := onRight
        refine ⟨word, (isBeginning_nonterminal positive).mpr
          ⟨rule, mem_rulesFor.mpr ⟨member, rfl⟩, ?_⟩⟩
        rwa [List.append_nil]

/-- A form has a beginning if the grammar knows its nonterminals. -/
theorem WellFormed.exists_isBeginning_of_known {form : List Symbol}
    (known : ∀ nonterminal, .nonterminal nonterminal ∈ form →
      nonterminal < grammar.nonterminals.size)
    (length : Nat) : ∃ word, grammar.IsBeginning length form word := by
  apply exists_isBeginning_of_nonterminals
  intro before nonterminal after split front _ _
  have inForm : .nonterminal nonterminal ∈ form := by simp [split]
  exact wellFormed.exists_isBeginning_nonterminal (known nonterminal inForm)
    (length - front.length)

/-- No branch of a leftmost derivation dies: every known form has a beginning. -/
theorem WellFormed.exists_isBeginning {form : List Symbol} (known : grammar.KnowsAll form)
    (length : Nat) : ∃ word, grammar.IsBeginning length form word :=
  wellFormed.exists_isBeginning_of_known (fun nonterminal => known (.nonterminal nonterminal))
    length

/-- A beginning can be continued to any greater length. -/
theorem WellFormed.exists_longer {form : List Symbol} (known : grammar.KnowsAll form)
    {shorter length : Nat} (le : shorter ≤ length) {front : List Terminal}
    (beginning : grammar.IsBeginning shorter form front) :
    ∃ word, grammar.IsBeginning length form word ∧ word.take shorter = front := by
  rcases isBeginning_iff_reads.mp beginning with ⟨short, numbers, reads⟩ |
    ⟨full, numbers, rest, reads⟩
  · refine ⟨front, isBeginning_iff_reads.mpr (.inl ⟨by omega, numbers, reads⟩), ?_⟩
    exact List.take_of_length_le (Nat.le_of_lt short)
  · have restKnown := (wellFormed.known_of_reads reads known).2
    obtain ⟨back, backBeginning⟩ := wellFormed.exists_isBeginning restKnown (length - shorter)
    refine ⟨front ++ back, ?_, List.take_left' full⟩
    rw [isBeginning_iff_reads, List.length_append]
    rcases isBeginning_iff_reads.mp backBeginning with ⟨short, second, backReads⟩ |
      ⟨fills, second, further, backReads⟩
    · exact .inl ⟨by omega, numbers ++ second, reads.trans backReads⟩
    · exact .inr ⟨by omega, numbers ++ second, further, reads.trans backReads⟩

/-- Beginnings of a concatenation are the cut concatenations of beginnings. -/
theorem WellFormed.isBeginning_append_iff_take {left right : List Symbol}
    (known : grammar.KnowsAll right) {length : Nat} {word : List Terminal} :
    grammar.IsBeginning length (left ++ right) word ↔
      ∃ front back, grammar.IsBeginning length left front ∧
        grammar.IsBeginning length right back ∧ word = (front ++ back).take length := by
  rw [isBeginning_append]
  constructor
  · rintro (⟨full, beginning⟩ | ⟨front, back, short, frontBeginning, backBeginning, rfl⟩)
    · obtain ⟨back, backBeginning⟩ := wellFormed.exists_isBeginning known length
      exact ⟨word, back, beginning, backBeginning, (List.take_left' full).symm⟩
    · obtain ⟨longer, longerBeginning, rfl⟩ := wellFormed.exists_longer known
        (Nat.sub_le length front.length) backBeginning
      refine ⟨front, longer, frontBeginning, longerBeginning, ?_⟩
      rw [List.take_append, List.take_of_length_le (Nat.le_of_lt short)]
  · rintro ⟨front, back, frontBeginning, backBeginning, rfl⟩
    have bound := frontBeginning.length_le
    by_cases full : front.length = length
    · left
      rw [List.take_left' full]
      exact ⟨full, frontBeginning⟩
    · right
      refine ⟨front, back.take (length - front.length), by omega, frontBeginning,
        backBeginning.take (Nat.sub_le _ _), ?_⟩
      rw [List.take_append, List.take_of_length_le bound]

end WellFormed

end Grammar

end Predictive
