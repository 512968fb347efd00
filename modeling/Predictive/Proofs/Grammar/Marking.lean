import Predictive.Grammar.Marking
import Predictive.Proofs.Grammar.Draft
import Predictive.Proofs.Grammar.Nullable
import Predictive.Proofs.Grammar.Rewriting

/-!
Contract: setting the flags in place ends, with the flags of exactly the nonterminals that derive
the empty string.

Owns: what a visit and a pass do to the flags, the number of passes that is enough, and left
corners by their places.
Does not own: what the left corners are searched for.

At any time a flag is set for a nonterminal only that derives the empty string (`IsSound`), even
while a pass is under way. A pass that sets a flag leaves fewer of them unset. One that sets none
has found every rule closed under the flags, and then no nonterminal is missing.
-/

namespace Predictive

namespace Marking

variable {grammar : Grammar} {marking : Marking} {flags : Array Bool}

/-! ### One visit -/

/-- A visit leaves everything as it was, or sets the flag of a left side behind flagged symbols
only. -/
theorem visit_cases (marking : Marking) (rule : Rule) :
    (marking.visit rule = marking ∧
      (rule.right.all (Grammar.symbolNullable marking.flags) = true →
        marking.flags.getD rule.left false = true)) ∨
    (marking.visit rule = ⟨marking.flags.setIfInBounds rule.left true, true⟩ ∧
      rule.right.all (Grammar.symbolNullable marking.flags) = true ∧
      marking.flags.getD rule.left false = false) := by
  unfold visit
  by_cases flagged : marking.flags.getD rule.left false = true
  · left
    rw [if_pos flagged]
    exact ⟨rfl, fun _ => flagged⟩
  · rw [if_neg flagged]
    by_cases fires : rule.right.all (Grammar.symbolNullable marking.flags) = true
    · right
      rw [if_pos fires]
      exact ⟨rfl, fires, Bool.eq_false_of_not_eq_true flagged⟩
    · left
      rw [if_neg fires]
      exact ⟨rfl, fun all => absurd all fires⟩

theorem count_setIfInBounds_lt {place : Nat} (inside : place < flags.size)
    (unset : flags.getD place false = false) :
    (flags.setIfInBounds place true).count false < flags.count false := by
  have atPlace : flags[place] = false := by
    simpa [Array.getD_eq_getD_getElem?, Array.getElem?_eq_getElem inside] using unset
  have some_unset : 0 < flags.count false :=
    Array.count_pos_iff.mpr (atPlace ▸ Array.getElem_mem inside)
  have counted : (flags.set place true inside).count false = flags.count false - 1 := by
    rw [Array.count_set inside, atPlace]
    rfl
  rw [Array.setIfInBounds, dif_pos inside, counted]
  omega

/-- One flag for each nonterminal, and none set but for those that derive the empty string. -/
structure IsSound (grammar : Grammar) (flags : Array Bool) : Prop where
  size_eq : flags.size = grammar.nonterminals.size
  erases : ∀ nonterminal, flags.getD nonterminal false = true →
    ∃ numbers, grammar.Reads [.nonterminal nonterminal] numbers [] []

theorem IsSound.setIfInBounds (sound : IsSound grammar flags) {rule : Rule}
    (member : rule ∈ grammar.rules)
    (fires : rule.right.all (Grammar.symbolNullable flags) = true) :
    IsSound grammar (flags.setIfInBounds rule.left true) where
  size_eq := by rw [Array.size_setIfInBounds, sound.size_eq]
  erases := by
    intro nonterminal flagged
    by_cases same : rule.left = nonterminal
    · obtain ⟨number, found⟩ := Grammar.exists_rule?_of_mem member
      obtain ⟨numbers, erased⟩ := Grammar.exists_erasing_of_all sound.erases fires
      rw [← same]
      exact ⟨number :: numbers, .expand found (by rwa [List.append_nil])⟩
    · apply sound.erases
      simpa [Array.getElem?_setIfInBounds_ne same] using flagged

/-! ### One pass -/

/-- What visits make of a marking. -/
structure Advances (grammar : Grammar) (before after : Marking) : Prop where
  sound : IsSound grammar after.flags
  unset_le : after.flags.count false ≤ before.flags.count false
  unset_lt : before.changed = false → after.changed = true →
    after.flags.count false < before.flags.count false

theorem Advances.refl (sound : IsSound grammar marking.flags) :
    Advances grammar marking marking where
  sound := sound
  unset_le := Nat.le_refl _
  unset_lt := fun fresh changed => absurd (fresh.symm.trans changed) (by simp)

theorem Advances.trans {before middle after : Marking} (first : Advances grammar before middle)
    (second : Advances grammar middle after) : Advances grammar before after where
  sound := second.sound
  unset_le := Nat.le_trans second.unset_le first.unset_le
  unset_lt := by
    intro fresh changed
    have low := first.unset_le
    have high := second.unset_le
    cases atMiddle : middle.changed with
    | false =>
        have less := second.unset_lt atMiddle changed
        omega
    | true =>
        have less := first.unset_lt fresh atMiddle
        omega

section Known

variable (leftKnown : ∀ rule ∈ grammar.rules, rule.left < grammar.nonterminals.size)

include leftKnown

theorem advances_visit (sound : IsSound grammar marking.flags) {rule : Rule}
    (member : rule ∈ grammar.rules) : Advances grammar marking (marking.visit rule) := by
  rcases visit_cases marking rule with ⟨same, _⟩ | ⟨set, fires, unset⟩
  · rw [same]
    exact .refl sound
  · have inside : rule.left < marking.flags.size := by
      rw [sound.size_eq]
      exact leftKnown rule member
    have less := count_setIfInBounds_lt inside unset
    rw [set]
    exact ⟨sound.setIfInBounds member fires, Nat.le_of_lt less, fun _ _ => less⟩

theorem advances_foldl {rules : List Rule} (part : ∀ rule ∈ rules, rule ∈ grammar.rules)
    (sound : IsSound grammar marking.flags) :
    Advances grammar marking (rules.foldl visit marking) := by
  induction rules generalizing marking with
  | nil => exact .refl sound
  | cons rule rest inductionHypothesis =>
      have first := advances_visit leftKnown sound (part rule List.mem_cons_self)
      have onward := inductionHypothesis
        (fun other later => part other (List.mem_cons_of_mem _ later)) first.sound
      exact first.trans onward

end Known

/-- Visits that set no flag have changed nothing, and found every rule closed. -/
theorem foldl_unchanged {rules : List Rule}
    (unchanged : (rules.foldl visit marking).changed = false) :
    rules.foldl visit marking = marking ∧
      ∀ rule ∈ rules, rule.right.all (Grammar.symbolNullable marking.flags) = true →
        marking.flags.getD rule.left false = true := by
  induction rules generalizing marking with
  | nil => exact ⟨rfl, fun _ member => absurd member List.not_mem_nil⟩
  | cons rule rest inductionHypothesis =>
      rw [List.foldl_cons] at unchanged ⊢
      obtain ⟨same, closed⟩ := inductionHypothesis unchanged
      rcases visit_cases marking rule with ⟨kept, closedHere⟩ | ⟨set, _⟩
      · rw [kept] at same closed ⊢
        exact ⟨same, List.forall_mem_cons.mpr ⟨closedHere, closed⟩⟩
      · rw [same, set] at unchanged
        exact absurd unchanged (by simp)

/-! ### All passes -/

/-- Closed flags are complete: they are the flags by rounds. -/
theorem IsSound.eq_nullable (leftKnown : ∀ rule ∈ grammar.rules,
      rule.left < grammar.nonterminals.size) (sound : IsSound grammar flags)
    (closed : grammar.IsClosed flags) : flags = grammar.nullable := by
  have flagged_iff (nonterminal : Nonterminal) : flags.getD nonterminal false = true ↔
      grammar.nullable.getD nonterminal false = true := by
    rw [Grammar.getD_nullable_iff leftKnown]
    constructor
    · intro flagged
      obtain ⟨numbers, reads⟩ := sound.erases nonterminal flagged
      exact ⟨numbers, reads.replay⟩
    · rintro ⟨numbers, erased⟩
      have reads : grammar.Reads [.nonterminal nonterminal] numbers [] [] :=
        Grammar.reads_iff_replay.mpr erased
      simpa [Grammar.symbolNullable] using closed.all_nullable reads rfl rfl
  apply Array.ext
  · exact sound.size_eq.trans (Grammar.size_nullableAfter _).symm
  · intro place inside insideToo
    have same := flagged_iff place
    rw [Array.getD_eq_getD_getElem?, Array.getD_eq_getD_getElem?, Array.getElem?_eq_getElem inside,
      Array.getElem?_eq_getElem insideToo] at same
    exact Bool.eq_iff_iff.mpr same

/-- By induction on the passes that are left: as long as they outnumber the flags that are not
set, the last of them sets none. -/
theorem settle_eq (leftKnown : ∀ rule ∈ grammar.rules, rule.left < grammar.nonterminals.size)
    {passes : Nat} (sound : IsSound grammar flags) (enough : flags.count false < passes) :
    settle grammar.rules passes flags = some grammar.nullable := by
  induction passes generalizing flags with
  | zero => exact absurd enough (Nat.not_lt_zero _)
  | succ passes inductionHypothesis =>
      have advances : Advances grammar ⟨flags, false⟩ (pass grammar.rules flags) :=
        advances_foldl leftKnown (fun _ member => member) sound
      rw [settle]
      by_cases changed : (pass grammar.rules flags).changed = true
      · have less := advances.unset_lt rfl changed
        rw [if_pos changed]
        apply inductionHypothesis advances.sound
        have bound : flags.count false ≤ passes := Nat.le_of_lt_succ enough
        exact Nat.lt_of_lt_of_le less bound
      · obtain ⟨same, closed⟩ := foldl_unchanged (Bool.eq_false_of_not_eq_true changed)
        rw [if_neg changed, pass, same, sound.eq_nullable leftKnown closed]

end Marking

namespace Grammar

variable {grammar : Grammar}

theorem nullableInPlace_eq (leftKnown : ∀ rule ∈ grammar.rules,
      rule.left < grammar.nonterminals.size) {passes : Nat}
    (enough : grammar.nonterminals.size < passes) :
    grammar.nullableInPlace passes = some grammar.nullable := by
  apply Marking.settle_eq leftKnown
  · refine ⟨Array.size_replicate, fun nonterminal flagged => ?_⟩
    simp only [Array.getD_eq_getD_getElem?, Array.getElem?_replicate] at flagged
    split at flagged <;> exact absurd flagged (by simp)
  · rwa [Array.count_replicate_self]

/-! ### What the flags are good for -/

/-- What makes flags those of the nonterminals that derive the empty string. -/
structure HasExactFlags (grammar : Grammar) (flags : Array Bool) : Prop where
  size_eq : flags.size = grammar.nonterminals.size
  /-- No flag is looked up that is not there. -/
  known : ∀ rule ∈ grammar.rules, rule.left < flags.size ∧
    ∀ nonterminal, .nonterminal nonterminal ∈ rule.right → nonterminal < flags.size
  flag_iff : ∀ nonterminal, flags[nonterminal]? = some true ↔
    grammar.Rewrites [.nonterminal nonterminal] []
  /-- The left corners are the nonterminals of the right side that stand behind nothing or behind
  what derives the empty string. What stands in front of one are left corners too, so it has the
  same place in both lists. -/
  leftCorner_iff : ∀ right place nonterminal, (leftCorners flags right)[place]? = some nonterminal ↔
    right[place]? = some (.nonterminal nonterminal) ∧ grammar.Rewrites (right.take place) []

theorem hasExactFlags_nullable (leftKnown : ∀ rule ∈ grammar.rules,
      rule.left < grammar.nonterminals.size)
    (rightKnown : ∀ rule ∈ grammar.rules, grammar.KnowsAll rule.right) :
    grammar.HasExactFlags grammar.nullable where
  size_eq := size_nullableAfter _
  known := by
    intro rule member
    rw [nullable, size_nullableAfter]
    exact ⟨leftKnown rule member, fun nonterminal inRight =>
      rightKnown rule member (.nonterminal nonterminal) inRight⟩
  flag_iff := by
    intro nonterminal
    rw [← derives_nil_iff_rewrites, ← getD_nullable_iff leftKnown, Array.getD_eq_getD_getElem?]
    cases grammar.nullable[nonterminal]? <;> simp
  leftCorner_iff := by
    intro right place nonterminal
    rw [getElem?_leftCorners, ← derives_nil_iff_rewrites, all_nullable_iff leftKnown]

/-- Whatever rules a grammar is numbered from, given passes enough the loop comes to an end, with
the flags that tell which nonterminals derive the empty string. -/
theorem nullableInPlace_exact (rules : List NamedRule) : ∃ flags,
    (∃ enough, ∀ passes, enough ≤ passes →
      (ofNamedRules rules).nullableInPlace passes = some flags) ∧
      (ofNamedRules rules).nullable = flags ∧ (ofNamedRules rules).HasExactFlags flags := by
  have leftKnown := left_known_ofNamedRules rules
  have rightKnown := right_known_ofNamedRules rules
  refine ⟨(ofNamedRules rules).nullable, ⟨(ofNamedRules rules).nonterminals.size + 1, ?_⟩, rfl,
    hasExactFlags_nullable leftKnown rightKnown⟩
  intro passes enough
  exact nullableInPlace_eq leftKnown enough

/-- Left recursion does not matter: the sum is erased by its second rule, in the second pass. -/
example : (ofNamedRules [⟨"sum", [.nonterminal "sum", .nonterminal "sum"]⟩,
      ⟨"sum", [.nonterminal "sign"]⟩, ⟨"sign", []⟩, ⟨"sign", [.terminal "-"]⟩]).nullableInPlace 3 =
    some #[true, true] := by
  decide

end Grammar

end Predictive
