import Mathlib.Data.Finset.Card
import Predictive.Grammar.Nullable
import Predictive.Proofs.Grammar.WellFormed

/-!
Contract: the nullability flags tell the nonterminals that derive the empty string.

Owns: what a round adds, the round after which nothing is added, the completeness and the
soundness of the flags, and left corners in terms of flags.
Does not own: the search for left recursion that uses them.

Until a round changes nothing each round adds a flag, so one of the first rounds, one more
than there are nonterminals, changes nothing (`exists_closed_round`). Flags that a round
does not change are closed under the rules, and a reading that passes no terminal can be
followed backwards along such flags.
-/

namespace Predictive

namespace Grammar

variable {grammar : Grammar}

/-- Whether every rule with flagged symbols only has a flagged left side. -/
def IsClosed (grammar : Grammar) (flags : Array Bool) : Prop :=
  ∀ rule ∈ grammar.rules, rule.right.all (symbolNullable flags) = true →
    flags.getD rule.left false = true

/-! ### Rounds -/

private theorem getD_foldl_round (flags next : Array Bool) (rules : List Rule)
    (nonterminal : Nonterminal) :
    (rules.foldl (fun next rule =>
        if rule.right.all (symbolNullable flags) then next.setIfInBounds rule.left true
        else next) next).getD nonterminal false = true ↔
      next.getD nonterminal false = true ∨
        (nonterminal < next.size ∧ ∃ rule ∈ rules, rule.left = nonterminal ∧
          rule.right.all (symbolNullable flags) = true) := by
  induction rules generalizing next with
  | nil => simp
  | cons rule rules inductionHypothesis =>
      rw [List.foldl_cons, inductionHypothesis]
      simp only [List.mem_cons, exists_eq_or_imp]
      by_cases fires : rule.right.all (symbolNullable flags) = true
      · rw [if_pos fires]
        by_cases same : rule.left = nonterminal
        · subst same
          by_cases inside : rule.left < next.size <;> simp only [fires] <;> simp [inside]
        · simp [Array.getElem?_setIfInBounds_ne same, same]
      · rw [if_neg fires]
        simp only [fires, and_false, false_or, Bool.false_eq_true]

theorem getD_nullableRound (flags : Array Bool) (nonterminal : Nonterminal) :
    (grammar.nullableRound flags).getD nonterminal false = true ↔
      flags.getD nonterminal false = true ∨
        (nonterminal < flags.size ∧ ∃ rule ∈ grammar.rules, rule.left = nonterminal ∧
          rule.right.all (symbolNullable flags) = true) :=
  getD_foldl_round flags flags grammar.rules nonterminal

theorem size_nullableAfter (rounds : Nat) :
    (grammar.nullableAfter rounds).size = grammar.nonterminals.size := by
  have keepsSize : ∀ (flags : Array Bool) (rules : List Rule) (next : Array Bool),
      (rules.foldl (fun next rule =>
        if rule.right.all (symbolNullable flags) then next.setIfInBounds rule.left true
        else next) next).size = next.size := by
    intro flags rules
    induction rules with
    | nil => simp
    | cons rule rules inductionHypothesis =>
        intro next
        rw [List.foldl_cons, inductionHypothesis]
        split <;> simp
  induction rounds with
  | zero => simp [nullableAfter]
  | succ rounds inductionHypothesis =>
      rw [nullableAfter, nullableRound, keepsSize, inductionHypothesis]

theorem nullableAfter_mono {fewer more : Nat} (le : fewer ≤ more) {nonterminal : Nonterminal}
    (flagged : (grammar.nullableAfter fewer).getD nonterminal false = true) :
    (grammar.nullableAfter more).getD nonterminal false = true := by
  induction le with
  | refl => exact flagged
  | step _ inductionHypothesis => exact (getD_nullableRound _ _).mpr (.inl inductionHypothesis)

/-- The nonterminals flagged after a number of rounds. -/
def flaggedAfter (grammar : Grammar) (rounds : Nat) : Finset Nonterminal :=
  (Finset.range grammar.nonterminals.size).filter fun nonterminal =>
    (grammar.nullableAfter rounds).getD nonterminal false = true

theorem card_flaggedAfter_lt (leftKnown : ∀ rule ∈ grammar.rules,
      rule.left < grammar.nonterminals.size) {rounds : Nat}
    (grows : ¬ grammar.IsClosed (grammar.nullableAfter rounds)) :
    (grammar.flaggedAfter rounds).card < (grammar.flaggedAfter (rounds + 1)).card := by
  unfold IsClosed at grows
  push Not at grows
  obtain ⟨rule, member, fires, unflagged⟩ := grows
  have inRange := leftKnown rule member
  have added : (grammar.nullableAfter (rounds + 1)).getD rule.left false = true := by
    refine (getD_nullableRound _ _).mpr (.inr ⟨?_, rule, member, rfl, fires⟩)
    rwa [size_nullableAfter]
  apply Finset.card_lt_card
  refine Finset.ssubset_iff_of_subset ?_ |>.mpr ⟨rule.left, ?_, ?_⟩
  · intro nonterminal flagged
    obtain ⟨known, before⟩ := Finset.mem_filter.mp flagged
    exact Finset.mem_filter.mpr ⟨known, nullableAfter_mono (Nat.le_succ rounds) before⟩
  · exact Finset.mem_filter.mpr ⟨Finset.mem_range.mpr inRange, added⟩
  · intro flagged
    exact unflagged (Finset.mem_filter.mp flagged).2

theorem exists_closed_round (leftKnown : ∀ rule ∈ grammar.rules,
      rule.left < grammar.nonterminals.size) :
    ∃ rounds ≤ grammar.nonterminals.size, grammar.IsClosed (grammar.nullableAfter rounds) := by
  by_contra never
  push Not at never
  have counts : ∀ rounds ≤ grammar.nonterminals.size + 1,
      rounds ≤ (grammar.flaggedAfter rounds).card := by
    intro rounds
    induction rounds with
    | zero => intro _; exact Nat.zero_le _
    | succ rounds inductionHypothesis =>
        intro bound
        have before := inductionHypothesis (by omega)
        have grows := card_flaggedAfter_lt leftKnown (never rounds (by omega))
        omega
  have tooMany := counts (grammar.nonterminals.size + 1) (Nat.le_refl _)
  have atMost : (grammar.flaggedAfter (grammar.nonterminals.size + 1)).card
      ≤ grammar.nonterminals.size := by
    have filtered := Finset.card_filter_le (Finset.range grammar.nonterminals.size)
      fun nonterminal => (grammar.nullableAfter (grammar.nonterminals.size + 1)).getD
        nonterminal false = true
    rwa [Finset.card_range] at filtered
  omega

/-! ### Completeness -/

theorem IsClosed.all_nullable {flags : Array Bool} (closed : grammar.IsClosed flags)
    {form rest : List Symbol} {numbers : List Nat} {word : List Terminal}
    (reads : grammar.Reads form numbers word rest) (noWord : word = []) (noRest : rest = []) :
    form.all (symbolNullable flags) = true := by
  induction reads with
  | stop form => simp [noRest]
  | pass terminal onward _ => exact absurd noWord (by simp)
  | @expand number rule form rest numbers word found onward inductionHypothesis =>
      have flagged := inductionHypothesis noWord noRest
      rw [List.all_append, Bool.and_eq_true] at flagged
      rw [List.all_cons, Bool.and_eq_true]
      exact ⟨closed rule (mem_rules_of_rule? found) flagged.1, flagged.2⟩

/-- A form that derives the empty string has flagged nonterminals only. -/
theorem all_nullable_of_derives (leftKnown : ∀ rule ∈ grammar.rules,
      rule.left < grammar.nonterminals.size) {form : List Symbol}
    (erased : grammar.Derives form []) :
    form.all (symbolNullable grammar.nullable) = true := by
  obtain ⟨rounds, bound, closed⟩ := exists_closed_round leftKnown
  have wordless : grammar.Derives form (terminalString []) := erased
  obtain ⟨numbers, reads⟩ := derives_word_iff.mp wordless
  have flagged := closed.all_nullable reads rfl rfl
  rw [List.all_eq_true] at flagged ⊢
  intro symbol member
  have early := flagged symbol member
  cases symbol with
  | terminal number => exact early
  | nonterminal number => exact nullableAfter_mono bound early

/-! ### Soundness -/

/-- A form of nonterminals that can all be erased can be erased. -/
theorem exists_erasing_of_all {flags : Array Bool}
    (each : ∀ nonterminal, flags.getD nonterminal false = true →
      ∃ numbers, grammar.Reads [.nonterminal nonterminal] numbers [] [])
    {form : List Symbol} (flagged : form.all (symbolNullable flags) = true) :
    ∃ numbers, grammar.Reads form numbers [] [] := by
  induction form with
  | nil => exact ⟨[], .stop []⟩
  | cons symbol form inductionHypothesis =>
      rw [List.all_cons, Bool.and_eq_true] at flagged
      obtain ⟨more, behind⟩ := inductionHypothesis flagged.2
      cases symbol with
      | terminal number => exact absurd flagged.1 (by simp [symbolNullable])
      | nonterminal number =>
          obtain ⟨numbers, front⟩ := each number flagged.1
          exact ⟨numbers ++ more, front.append behind⟩

theorem exists_erasing_of_nullableAfter (rounds : Nat) {nonterminal : Nonterminal}
    (flagged : (grammar.nullableAfter rounds).getD nonterminal false = true) :
    ∃ numbers, grammar.Reads [.nonterminal nonterminal] numbers [] [] := by
  induction rounds generalizing nonterminal with
  | zero =>
      simp only [nullableAfter, Array.getD_eq_getD_getElem?, Array.getElem?_replicate] at flagged
      split at flagged <;> exact absurd flagged (by simp)
  | succ rounds inductionHypothesis =>
      rcases (getD_nullableRound _ _).mp flagged with earlier | ⟨_, rule, member, rfl, fires⟩
      · exact inductionHypothesis earlier
      · obtain ⟨number, found⟩ := exists_rule?_of_mem member
        obtain ⟨numbers, onward⟩ := exists_erasing_of_all
          (fun _ earlier => inductionHypothesis earlier) fires
        exact ⟨number :: numbers, .expand found (by rwa [List.append_nil])⟩

/-- A form of flagged nonterminals derives the empty string. -/
theorem derives_nil_of_all_nullable {form : List Symbol}
    (flagged : form.all (symbolNullable grammar.nullable) = true) : grammar.Derives form [] := by
  obtain ⟨numbers, reads⟩ := exists_erasing_of_all
    (fun _ each => exists_erasing_of_nullableAfter grammar.nonterminals.size each) flagged
  exact ⟨numbers, reads.replay⟩

/-- The flags decide which forms derive the empty string. -/
theorem all_nullable_iff (leftKnown : ∀ rule ∈ grammar.rules,
      rule.left < grammar.nonterminals.size) {form : List Symbol} :
    form.all (symbolNullable grammar.nullable) = true ↔ grammar.Derives form [] :=
  ⟨derives_nil_of_all_nullable, all_nullable_of_derives leftKnown⟩

theorem getD_nullable_iff (leftKnown : ∀ rule ∈ grammar.rules,
      rule.left < grammar.nonterminals.size) {nonterminal : Nonterminal} :
    grammar.nullable.getD nonterminal false = true ↔
      grammar.Derives [.nonterminal nonterminal] [] := by
  rw [← all_nullable_iff leftKnown]
  simp [symbolNullable]

/-! ### Left corners -/

/-- A left corner has the same place in the right side, behind flagged nonterminals only. -/
theorem getElem?_leftCorners {flags : Array Bool} {right : List Symbol} {place : Nat}
    {nonterminal : Nonterminal} :
    (leftCorners flags right)[place]? = some nonterminal ↔
      right[place]? = some (.nonterminal nonterminal) ∧
        (right.take place).all (symbolNullable flags) = true := by
  induction right generalizing place with
  | nil => simp [leftCorners]
  | cons symbol rest inductionHypothesis =>
      cases symbol with
      | terminal number => cases place <;> simp [leftCorners, symbolNullable]
      | nonterminal number =>
          cases place with
          | zero => simp [leftCorners]
          | succ place =>
              rw [leftCorners, List.getElem?_cons_succ, List.getElem?_cons_succ,
                List.take_succ_cons, List.all_cons, Bool.and_eq_true]
              by_cases flagged : flags.getD number false = true
              · rw [if_pos flagged, inductionHypothesis]
                exact and_congr_right fun _ => (and_iff_right flagged).symm
              · rw [if_neg flagged]
                have unflagged : ¬symbolNullable flags (.nonterminal number) = true := flagged
                simp [unflagged]

/-- A left corner is a nonterminal with nothing but flagged ones in front of it. -/
theorem mem_leftCorners_iff {flags : Array Bool} {right : List Symbol}
    {nonterminal : Nonterminal} :
    nonterminal ∈ leftCorners flags right ↔ ∃ before after,
      right = before ++ .nonterminal nonterminal :: after ∧
        before.all (symbolNullable flags) = true := by
  rw [List.mem_iff_getElem?]
  constructor
  · rintro ⟨place, found⟩
    obtain ⟨inRight, nullable⟩ := getElem?_leftCorners.mp found
    obtain ⟨inside, atPlace⟩ := List.getElem?_eq_some_iff.mp inRight
    refine ⟨right.take place, right.drop (place + 1), ?_, nullable⟩
    rw [← atPlace, ← List.drop_eq_getElem_cons, List.take_append_drop]
  · rintro ⟨before, after, rfl, nullable⟩
    refine ⟨before.length, getElem?_leftCorners.mpr ⟨?_, ?_⟩⟩
    · simp
    · rwa [List.take_left]

theorem mem_of_mem_leftCorners {flags : Array Bool} {right : List Symbol}
    {nonterminal : Nonterminal} (member : nonterminal ∈ leftCorners flags right) :
    .nonterminal nonterminal ∈ right := by
  obtain ⟨before, after, rfl, _⟩ := mem_leftCorners_iff.mp member
  simp

end Grammar

end Predictive
