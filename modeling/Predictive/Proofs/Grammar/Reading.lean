import Predictive.Grammar.Derivation

/-!
Contract: leftmost derivations that set aside the terminals they pass.

Owns: the relation `Reads`, its agreement with `replay`, and how a reading of a
concatenation splits.
Does not own: lengths of derivations, FIRST, and tables.

A pushdown run is a reading: the terminals set aside are the consumed input, and what is
left of the form is the pushdown. Unlike a replayed form, a reading keeps the two apart.
-/

namespace Predictive

namespace Grammar

/-- From a form, the rules `numbers` lead past the terminals of `word` to `rest`. -/
inductive Reads (grammar : Grammar) :
    List Symbol → List Nat → List Terminal → List Symbol → Prop where
  | stop (form : List Symbol) : Reads grammar form [] [] form
  | pass (terminal : Terminal) {form rest : List Symbol} {numbers : List Nat}
      {word : List Terminal} (onward : Reads grammar form numbers word rest) :
      Reads grammar (.terminal terminal :: form) numbers (terminal :: word) rest
  | expand {number : Nat} {rule : Rule} {form rest : List Symbol} {numbers : List Nat}
      {word : List Terminal} (found : grammar.rule? number = some rule)
      (onward : Reads grammar (rule.right ++ form) numbers word rest) :
      Reads grammar (.nonterminal rule.left :: form) (number :: numbers) word rest

variable {grammar : Grammar}

theorem mem_rules_of_rule? {number : Nat} {rule : Rule}
    (found : grammar.rule? number = some rule) : rule ∈ grammar.rules := by
  cases number with
  | zero => exact absurd found (by simp [rule?])
  | succ index => exact List.mem_of_getElem? found

theorem exists_rule?_of_mem {rule : Rule} (member : rule ∈ grammar.rules) :
    ∃ number, grammar.rule? number = some rule := by
  obtain ⟨index, found⟩ := List.mem_iff_getElem?.mp member
  exact ⟨index + 1, found⟩

/-! ### Agreement with replayed derivations -/

theorem replay_terminal (terminal : Terminal) (numbers : List Nat) (form : List Symbol) :
    grammar.replay numbers (.terminal terminal :: form) =
      (grammar.replay numbers form).map (.terminal terminal :: ·) := by
  induction numbers generalizing form with
  | nil => rfl
  | cons number numbers inductionHypothesis =>
      simp only [replay, replaceLeftmost, Option.bind_eq_bind]
      cases grammar.rule? number with
      | none => rfl
      | some rule =>
          cases replaced : replaceLeftmost rule form with
          | none => simp [replaced]
          | some next => simpa [replaced] using inductionHypothesis next

theorem replay_nonterminal {number : Nat} {numbers : List Nat} {nonterminal : Nonterminal}
    {form target : List Symbol}
    (derived : grammar.replay (number :: numbers) (.nonterminal nonterminal :: form) =
      some target) :
    ∃ rule, grammar.rule? number = some rule ∧ nonterminal = rule.left ∧
      grammar.replay numbers (rule.right ++ form) = some target := by
  simp only [replay, Option.bind_eq_bind, Option.bind_eq_some_iff, replaceLeftmost] at derived
  obtain ⟨rule, found, next, replaced, onward⟩ := derived
  split at replaced
  · rename_i same
    rw [← Option.some.inj replaced] at onward
    exact ⟨rule, found, same, onward⟩
  · exact absurd replaced (by simp)

theorem replay_expand {number : Nat} {rule : Rule} (found : grammar.rule? number = some rule)
    (numbers : List Nat) (form : List Symbol) :
    grammar.replay (number :: numbers) (.nonterminal rule.left :: form) =
      grammar.replay numbers (rule.right ++ form) := by
  simp [replay, found, replaceLeftmost]

theorem replay_nil {numbers : List Nat} {target : List Symbol}
    (derived : grammar.replay numbers [] = some target) : numbers = [] ∧ target = [] := by
  cases numbers with
  | nil => exact ⟨rfl, (Option.some.inj derived).symm⟩
  | cons number numbers =>
      simp [replay, replaceLeftmost] at derived

theorem Reads.replay {form rest : List Symbol} {numbers : List Nat} {word : List Terminal}
    (reads : grammar.Reads form numbers word rest) :
    grammar.replay numbers form = some (terminalString word ++ rest) := by
  induction reads with
  | stop form => rfl
  | pass terminal onward inductionHypothesis =>
      rw [replay_terminal, inductionHypothesis]
      rfl
  | expand found onward inductionHypothesis =>
      rw [replay_expand found, inductionHypothesis]

theorem reads_word (word : List Terminal) (target : List Symbol) :
    grammar.Reads (terminalString word ++ target) [] word target := by
  induction word with
  | nil => exact .stop target
  | cons terminal word inductionHypothesis => exact .pass terminal inductionHypothesis

/-- A derivation of a form that begins with a word passes the word at some point. -/
theorem exists_reads_of_replay {form target : List Symbol} {numbers : List Nat}
    {word : List Terminal}
    (derived : grammar.replay numbers form = some (terminalString word ++ target)) :
    ∃ front back rest, numbers = front ++ back ∧ grammar.Reads form front word rest ∧
      grammar.replay back rest = some target := by
  -- A rule shortens the list of numbers, a passed terminal the form.
  induction numbers generalizing form word with
  | nil =>
      rw [Option.some.inj derived]
      exact ⟨[], [], target, rfl, reads_word word target, rfl⟩
  | cons number numbers byRule =>
      induction form generalizing word with
      | nil => exact absurd (replay_nil derived).1 (by simp)
      | cons symbol form byTerminal =>
          cases word with
          | nil => exact ⟨[], number :: numbers, symbol :: form, rfl, .stop _, derived⟩
          | cons terminal word =>
              cases symbol with
              | terminal head =>
                  rw [replay_terminal, Option.map_eq_some_iff] at derived
                  obtain ⟨next, onward, equal⟩ := derived
                  obtain ⟨sameHead, sameTail⟩ := List.cons.inj equal
                  cases sameHead
                  subst sameTail
                  obtain ⟨front, back, rest, split, reads, remaining⟩ := byTerminal onward
                  exact ⟨front, back, rest, split, .pass terminal reads, remaining⟩
              | nonterminal head =>
                  obtain ⟨rule, found, rfl, onward⟩ := replay_nonterminal derived
                  obtain ⟨front, back, rest, rfl, reads, remaining⟩ := byRule onward
                  exact ⟨number :: front, back, rest, rfl, .expand found reads, remaining⟩

/-- A derivation of a word is a reading to the end. -/
theorem reads_iff_replay {form : List Symbol} {numbers : List Nat} {word : List Terminal} :
    grammar.Reads form numbers word [] ↔
      grammar.replay numbers form = some (terminalString word) := by
  constructor
  · intro reads
    rw [reads.replay, List.append_nil]
  · intro derived
    induction numbers generalizing form word with
    | nil =>
        rw [Option.some.inj derived]
        simpa using reads_word word []
    | cons number numbers byRule =>
        induction form generalizing word with
        | nil => exact absurd (replay_nil derived).1 (by simp)
        | cons symbol form byTerminal =>
            cases symbol with
            | terminal head =>
                rw [replay_terminal, Option.map_eq_some_iff] at derived
                obtain ⟨next, onward, equal⟩ := derived
                cases word with
                | nil => exact absurd equal (by simp [terminalString])
                | cons terminal word =>
                    obtain ⟨sameHead, sameTail⟩ := List.cons.inj equal
                    cases sameHead
                    subst sameTail
                    exact .pass head (byTerminal onward)
            | nonterminal head =>
                obtain ⟨rule, found, rfl, onward⟩ := replay_nonterminal derived
                exact .expand found (byRule onward)

theorem isLeftParse_iff_reads {numbers : List Nat} {word : List Terminal} :
    grammar.IsLeftParse numbers word ↔
      grammar.Reads [.nonterminal grammar.start] numbers word [] :=
  reads_iff_replay.symm

theorem derives_word_iff {form : List Symbol} {word : List Terminal} :
    grammar.Derives form (terminalString word) ↔ ∃ numbers, grammar.Reads form numbers word [] := by
  constructor
  · rintro ⟨numbers, derived⟩
    exact ⟨numbers, reads_iff_replay.mpr derived⟩
  · rintro ⟨numbers, reads⟩
    exact ⟨numbers, reads_iff_replay.mp reads⟩

theorem derives_front_iff {form : List Symbol} {word : List Terminal} :
    (∃ rest, grammar.Derives form (terminalString word ++ rest)) ↔
      ∃ numbers rest, grammar.Reads form numbers word rest := by
  constructor
  · rintro ⟨target, numbers, derived⟩
    obtain ⟨front, _, rest, _, reads, _⟩ := exists_reads_of_replay derived
    exact ⟨front, rest, reads⟩
  · rintro ⟨numbers, rest, reads⟩
    exact ⟨rest, numbers, reads.replay⟩

/-! ### Joining and splitting readings -/

theorem Reads.trans {form middle rest : List Symbol} {first second : List Nat}
    {firstWord secondWord : List Terminal} (front : grammar.Reads form first firstWord middle)
    (back : grammar.Reads middle second secondWord rest) :
    grammar.Reads form (first ++ second) (firstWord ++ secondWord) rest := by
  induction front with
  | stop form => exact back
  | pass terminal onward inductionHypothesis => exact .pass terminal (inductionHypothesis back)
  | expand found onward inductionHypothesis => exact .expand found (inductionHypothesis back)

/-- What stands behind a form does not disturb a reading of it. -/
theorem Reads.behind {form rest : List Symbol} {numbers : List Nat} {word : List Terminal}
    (reads : grammar.Reads form numbers word rest) (below : List Symbol) :
    grammar.Reads (form ++ below) numbers word (rest ++ below) := by
  induction reads with
  | stop form => exact .stop _
  | pass terminal onward inductionHypothesis => exact .pass terminal inductionHypothesis
  | expand found onward inductionHypothesis =>
      rw [List.append_assoc] at inductionHypothesis
      exact .expand found inductionHypothesis

theorem Reads.append {left right rest : List Symbol} {first second : List Nat}
    {firstWord secondWord : List Terminal} (front : grammar.Reads left first firstWord [])
    (back : grammar.Reads right second secondWord rest) :
    grammar.Reads (left ++ right) (first ++ second) (firstWord ++ secondWord) rest :=
  (front.behind right).trans back

/-- A reading of two forms in a row stays in the first one, or reads it to the end and
goes on in the second. -/
theorem Reads.split {left right rest : List Symbol} {numbers : List Nat} {word : List Terminal}
    (reads : grammar.Reads (left ++ right) numbers word rest) :
    (∃ remaining, grammar.Reads left numbers word remaining ∧ rest = remaining ++ right) ∨
      ∃ first second firstWord secondWord,
        numbers = first ++ second ∧ word = firstWord ++ secondWord ∧
          grammar.Reads left first firstWord [] ∧ grammar.Reads right second secondWord rest := by
  generalize whole : left ++ right = form at reads
  induction reads generalizing left with
  | stop form =>
      subst whole
      exact .inl ⟨left, .stop left, rfl⟩
  | @pass terminal form rest numbers word onward inductionHypothesis =>
      cases left with
      | nil =>
          simp only [List.nil_append] at whole
          subst whole
          exact .inr ⟨[], numbers, [], terminal :: word, rfl, rfl, .stop [], .pass terminal onward⟩
      | cons symbol left =>
          obtain ⟨rfl, same⟩ := List.cons.inj whole
          rcases inductionHypothesis same with ⟨remaining, inside, rfl⟩ |
            ⟨first, second, firstWord, secondWord, rfl, rfl, front, back⟩
          · exact .inl ⟨remaining, .pass terminal inside, rfl⟩
          · exact .inr ⟨first, second, terminal :: firstWord, secondWord, rfl, rfl,
              .pass terminal front, back⟩
  | @expand number rule form rest numbers word found onward inductionHypothesis =>
      cases left with
      | nil =>
          simp only [List.nil_append] at whole
          subst whole
          exact .inr ⟨[], number :: numbers, [], word, rfl, rfl, .stop [], .expand found onward⟩
      | cons symbol left =>
          obtain ⟨rfl, same⟩ := List.cons.inj whole
          have expanded : (rule.right ++ left) ++ right = rule.right ++ form := by
            simp [← same]
          rcases inductionHypothesis expanded with ⟨remaining, inside, rfl⟩ |
            ⟨first, second, firstWord, secondWord, rfl, rfl, front, back⟩
          · exact .inl ⟨remaining, .expand found inside, rfl⟩
          · exact .inr ⟨number :: first, second, firstWord, secondWord, rfl, rfl,
              .expand found front, back⟩

theorem Reads.split_end {left right : List Symbol} {numbers : List Nat} {word : List Terminal}
    (reads : grammar.Reads (left ++ right) numbers word []) :
    ∃ first second firstWord secondWord,
      numbers = first ++ second ∧ word = firstWord ++ secondWord ∧
        grammar.Reads left first firstWord [] ∧ grammar.Reads right second secondWord [] := by
  rcases reads.split with ⟨remaining, inside, nothing⟩ | split
  · obtain ⟨rfl, rfl⟩ := List.append_eq_nil_iff.mp nothing.symm
    exact ⟨numbers, [], word, [], (List.append_nil _).symm, (List.append_nil _).symm, inside,
      .stop []⟩
  · exact split

/-- Two forms in a row are erased one apart from the other. -/
theorem derives_append_nil_iff {front back : List Symbol} :
    grammar.Derives (front ++ back) [] ↔ grammar.Derives front [] ∧ grammar.Derives back [] := by
  constructor
  · rintro ⟨numbers, erased⟩
    have reads : grammar.Reads (front ++ back) numbers [] [] := reads_iff_replay.mpr erased
    obtain ⟨first, second, firstWord, secondWord, _, nothing, ofFront, ofBack⟩ := reads.split_end
    obtain ⟨rfl, rfl⟩ := List.append_eq_nil_iff.mp nothing.symm
    exact ⟨⟨first, ofFront.replay⟩, second, ofBack.replay⟩
  · rintro ⟨⟨first, frontErased⟩, second, backErased⟩
    have ofFront : grammar.Reads front first [] [] := reads_iff_replay.mpr frontErased
    have ofBack : grammar.Reads back second [] [] := reads_iff_replay.mpr backErased
    exact ⟨first ++ second, (ofFront.append ofBack).replay⟩

theorem reads_nil_iff {numbers : List Nat} {word : List Terminal} {rest : List Symbol} :
    grammar.Reads [] numbers word rest ↔ numbers = [] ∧ word = [] ∧ rest = [] := by
  constructor
  · intro reads
    cases reads
    exact ⟨rfl, rfl, rfl⟩
  · rintro ⟨rfl, rfl, rfl⟩
    exact .stop []

end Grammar

end Predictive
