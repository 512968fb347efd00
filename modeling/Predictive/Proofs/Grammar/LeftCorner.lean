import Predictive.Proofs.Grammar.LeftRecursion
import Predictive.Proofs.Grammar.Rewriting

/-!
Contract: the search for left recursion finds it exactly when there is some.

Owns: left corners in terms of derivations, what a nonterminal can be rewritten to begin
with, and what the answer of the search says about it.
Does not own: the search, and the names that its answer is reported under.

An occurrence that stands behind nothing but erased symbols can be followed backwards through
a rewriting: the step before either has it already or has put it there by a rule, and then it
is a left corner of the rule's left side. So chains of left corners and rewritings to a form
that begins with a nonterminal are the same thing (`beginsWith_iff`).
-/

namespace Predictive

namespace Grammar

variable {grammar : Grammar}

/-- Whether a rule of the first nonterminal has the second one behind symbols that can all be
erased. -/
def IsLeftCorner (grammar : Grammar) (outer inner : Nonterminal) : Prop :=
  ∃ rule ∈ grammar.rules, rule.left = outer ∧ ∃ before after,
    rule.right = before ++ .nonterminal inner :: after ∧ grammar.Derives before []

/-- Whether the first nonterminal rewrites, in at least one step, to a form that begins with
the second one. -/
def BeginsWith (grammar : Grammar) (outer inner : Nonterminal) : Prop :=
  ∃ rest, Relation.TransGen grammar.RewritesOnce [.nonterminal outer] (.nonterminal inner :: rest)

theorem mem_cornersOf_iff (leftKnown : ∀ rule ∈ grammar.rules,
      rule.left < grammar.nonterminals.size) {outer inner : Nonterminal} :
    inner ∈ grammar.cornersOf grammar.nullable outer ↔ grammar.IsLeftCorner outer inner := by
  simp only [cornersOf, List.mem_flatMap, mem_rulesFor, mem_leftCorners_iff]
  constructor
  · rintro ⟨rule, ⟨member, ofOuter⟩, before, after, split, flagged⟩
    exact ⟨rule, member, ofOuter, before, after, split, derives_nil_of_all_nullable flagged⟩
  · rintro ⟨rule, member, ofOuter, before, after, split, erased⟩
    exact ⟨rule, ⟨member, ofOuter⟩, before, after, split, all_nullable_of_derives leftKnown erased⟩

theorem IsLeftCorner.rank_lt {rank : Nonterminal → Nat} (ranking : grammar.IsRanking rank)
    {outer inner : Nonterminal} (corner : grammar.IsLeftCorner outer inner) :
    rank inner < rank outer := by
  obtain ⟨rule, member, rfl, before, after, split, erased⟩ := corner
  exact ranking.falls rule member before inner after split erased

/-! ### Chains of left corners -/

theorem IsLeftCorner.beginsWith {outer inner : Nonterminal}
    (corner : grammar.IsLeftCorner outer inner) : grammar.BeginsWith outer inner := by
  obtain ⟨rule, member, rfl, before, after, split, erased⟩ := corner
  refine ⟨after, ?_⟩
  have first : grammar.RewritesOnce [.nonterminal rule.left]
      (before ++ .nonterminal inner :: after) := by
    simpa [split] using RewritesOnce.expand member [] []
  exact .head' first ((derives_nil_iff_rewrites.mp erased).append_right _)

theorem BeginsWith.trans {outer middle inner : Nonterminal}
    (first : grammar.BeginsWith outer middle) (second : grammar.BeginsWith middle inner) :
    grammar.BeginsWith outer inner := by
  obtain ⟨behind, toMiddle⟩ := first
  obtain ⟨rest, toInner⟩ := second
  refine ⟨rest ++ behind, toMiddle.trans ?_⟩
  exact toInner.lift (· ++ behind) fun _ _ once => RewritesOnce.append_right once behind

/-- Of two ways to cut a list, a place in the one lies in front of the cut of the other or
behind it. -/
private theorem place_of_append_eq {α : Type} {before after front back : List α} {item : α}
    (whole : before ++ item :: after = front ++ back) :
    (∃ inside, front = before ++ item :: inside) ∨
      ∃ passed, before = front ++ passed ∧ back = passed ++ item :: after := by
  rcases List.append_eq_append_iff.mp whole with ⟨inside, rfl, onward⟩ | ⟨passed, rfl, onward⟩
  · cases inside with
    | nil => exact .inr ⟨[], by simp, onward.symm⟩
    | cons other inside =>
        obtain ⟨rfl, _⟩ := List.cons.inj onward
        exact .inl ⟨inside, rfl⟩
  · exact .inr ⟨passed, rfl, onward⟩

/-- An occurrence behind erased symbols, one step earlier. -/
theorem RewritesOnce.exists_source {form before after : List Symbol} {inner : Nonterminal}
    (rewrites : grammar.RewritesOnce form (before ++ .nonterminal inner :: after))
    (erased : grammar.Rewrites before []) :
    ∃ front outer back, form = front ++ .nonterminal outer :: back ∧ grammar.Rewrites front [] ∧
      (outer = inner ∨ grammar.IsLeftCorner outer inner) := by
  generalize whole : before ++ .nonterminal inner :: after = target at rewrites
  cases rewrites with
  | @expand rule member front behind =>
      rcases place_of_append_eq whole with ⟨inside, rfl⟩ | ⟨passed, rfl, onward⟩
      · exact ⟨before, inner, inside ++ .nonterminal rule.left :: behind, by simp, erased, .inl rfl⟩
      · obtain ⟨frontErased, passedErased⟩ := rewrites_append_nil_iff.mp erased
        rcases place_of_append_eq onward.symm with ⟨inside, split⟩ | ⟨remaining, rfl, rfl⟩
        · exact ⟨front, rule.left, behind, rfl, frontErased, .inr ⟨rule, member, rfl, passed, inside,
            split, derives_nil_iff_rewrites.mpr passedErased⟩⟩
        · -- The whole right side is erased, so the left side is.
          refine ⟨front ++ .nonterminal rule.left :: remaining, inner, after, by simp, ?_, .inl rfl⟩
          exact .head (.expand member front remaining) erased

theorem Rewrites.exists_source {form before after : List Symbol} {inner : Nonterminal}
    (rewrites : grammar.Rewrites form (before ++ .nonterminal inner :: after))
    (erased : grammar.Rewrites before []) :
    ∃ front outer back, form = front ++ .nonterminal outer :: back ∧ grammar.Rewrites front [] ∧
      Relation.ReflTransGen grammar.IsLeftCorner outer inner := by
  generalize whole : before ++ .nonterminal inner :: after = target at rewrites
  induction rewrites generalizing before inner after with
  | refl => exact ⟨before, inner, after, whole.symm, erased, .refl⟩
  | tail _ once inductionHypothesis =>
      subst whole
      obtain ⟨front, middle, back, rfl, frontErased, step⟩ := once.exists_source erased
      obtain ⟨ahead, outer, behind, split, aheadErased, chain⟩ := inductionHypothesis frontErased rfl
      refine ⟨ahead, outer, behind, split, aheadErased, ?_⟩
      rcases step with rfl | corner
      · exact chain
      · exact chain.tail corner

/-- The only rewriting of a nonterminal alone is a rule of it. -/
theorem RewritesOnce.exists_rule {nonterminal : Nonterminal} {next : List Symbol}
    (rewrites : grammar.RewritesOnce [.nonterminal nonterminal] next) :
    ∃ rule ∈ grammar.rules, rule.left = nonterminal ∧ rule.right = next := by
  generalize whole : [Symbol.nonterminal nonterminal] = form at rewrites
  cases rewrites with
  | @expand rule member before behind =>
      obtain ⟨rfl, same⟩ | ⟨_, impossible⟩ := List.singleton_eq_append_iff.mp whole
      · cases same
        exact ⟨rule, member, rfl, by simp⟩
      · exact absurd impossible (List.cons_ne_nil _ _)

theorem beginsWith_iff {outer inner : Nonterminal} :
    grammar.BeginsWith outer inner ↔ Relation.TransGen grammar.IsLeftCorner outer inner := by
  constructor
  · rintro ⟨rest, rewriting⟩
    obtain ⟨middle, once, onward⟩ := Relation.TransGen.head'_iff.mp rewriting
    obtain ⟨rule, member, ofOuter, rfl⟩ := once.exists_rule
    have reached : grammar.Rewrites rule.right ([] ++ .nonterminal inner :: rest) := onward
    obtain ⟨before, corner, after, split, erased, chain⟩ := reached.exists_source .refl
    have first : grammar.IsLeftCorner outer corner :=
      ⟨rule, member, ofOuter, before, after, split, derives_nil_iff_rewrites.mpr erased⟩
    exact .head' first chain
  · intro chain
    induction chain with
    | single corner => exact corner.beginsWith
    | tail _ corner inductionHypothesis => exact inductionHypothesis.trans corner.beginsWith

/-! ### Leftmost derivations -/

theorem rewritesOnce_of_replaceLeftmost {rule : Rule} (member : rule ∈ grammar.rules)
    {form next : List Symbol} (replaced : replaceLeftmost rule form = some next) :
    grammar.RewritesOnce form next := by
  induction form generalizing next with
  | nil => exact absurd replaced (by simp [replaceLeftmost])
  | cons symbol form inductionHypothesis =>
      cases symbol with
      | terminal number =>
          obtain ⟨behind, inForm, rfl⟩ := Option.map_eq_some_iff.mp replaced
          exact (inductionHypothesis inForm).append_left [.terminal number]
      | nonterminal number =>
          rw [replaceLeftmost] at replaced
          split at replaced
          · rename_i same
            cases replaced
            rw [same]
            exact .expand member [] form
          · exact absurd replaced (by simp)

theorem rewrites_of_replay {numbers : List Nat} {form target : List Symbol}
    (derived : grammar.replay numbers form = some target) : grammar.Rewrites form target := by
  induction numbers generalizing form with
  | nil =>
      cases derived
      exact .refl
  | cons number numbers inductionHypothesis =>
      simp only [replay, Option.bind_eq_bind, Option.bind_eq_some_iff] at derived
      obtain ⟨rule, found, next, replaced, onward⟩ := derived
      exact .head (rewritesOnce_of_replaceLeftmost (mem_rules_of_rule? found) replaced)
        (inductionHypothesis onward)

theorem IsLeftCorner.exists_reads {outer inner : Nonterminal}
    (corner : grammar.IsLeftCorner outer inner) : ∃ number numbers rest,
      grammar.Reads [.nonterminal outer] (number :: numbers) [] (.nonterminal inner :: rest) := by
  obtain ⟨rule, member, rfl, before, after, split, numbers, erased⟩ := corner
  obtain ⟨number, found⟩ := exists_rule?_of_mem member
  have reads : grammar.Reads before numbers [] [] := reads_iff_replay.mpr erased
  refine ⟨number, numbers, after, .expand found ?_⟩
  rw [List.append_nil, split]
  exact reads.behind (.nonterminal inner :: after)

/-- Deriving from the left alone, the same nonterminals begin with themselves. -/
theorem beginsWithItself_iff_beginsWith {nonterminal : Nonterminal} :
    grammar.BeginsWithItself nonterminal ↔ grammar.BeginsWith nonterminal nonterminal := by
  constructor
  · rintro ⟨number, numbers, rest, derived⟩
    obtain ⟨rule, found, rfl, onward⟩ := replay_nonterminal derived
    exact ⟨rest, .head' (.expand (mem_rules_of_rule? found) [] []) (rewrites_of_replay onward)⟩
  · intro itself
    have chain : ∀ inner, Relation.TransGen grammar.IsLeftCorner nonterminal inner →
        ∃ number numbers rest, grammar.Reads [.nonterminal nonterminal] (number :: numbers) []
          (.nonterminal inner :: rest) := by
      intro inner corners
      induction corners with
      | single corner => exact corner.exists_reads
      | tail _ corner inductionHypothesis =>
          obtain ⟨number, numbers, rest, front⟩ := inductionHypothesis
          obtain ⟨next, more, behind, back⟩ := corner.exists_reads
          exact ⟨number, numbers ++ next :: more, behind ++ rest, front.trans (back.behind rest)⟩
    obtain ⟨number, numbers, rest, reads⟩ := chain nonterminal (beginsWith_iff.mp itself)
    exact ⟨number, numbers, rest, reads.replay⟩

/-! ### The answer of the search -/

section Search

variable (leftKnown : ∀ rule ∈ grammar.rules, rule.left < grammar.nonterminals.size)
  (rightKnown : ∀ rule ∈ grammar.rules, grammar.KnowsAll rule.right)

include leftKnown rightKnown

/-- A nonterminal that the search reports begins with itself. -/
theorem beginsWith_of_leftRecursive? {found : Nonterminal}
    (searched : grammar.leftRecursive? = some found) :
    grammar.BeginsWith found found ∧ found < grammar.nonterminals.size := by
  obtain ⟨cycle, known⟩ := leadsTo_of_leftRecursive? rightKnown searched
  refine ⟨beginsWith_iff.mpr ?_, known⟩
  exact Relation.TransGen.mono (fun _ _ corner => (mem_cornersOf_iff leftKnown).mp corner) _ _ cycle

/-- If the search reports nothing, then no nonterminal begins with itself: along left corners
the ranking that it leaves behind falls. -/
theorem not_beginsWith_of_leftRecursive? (some_nonterminal : 0 < grammar.nonterminals.size)
    (searched : grammar.leftRecursive? = none) (nonterminal : Nonterminal) :
    ¬ grammar.BeginsWith nonterminal nonterminal := by
  obtain ⟨rank, ranking⟩ := exists_ranking some_nonterminal leftKnown rightKnown searched
  have falls : ∀ outer inner, Relation.TransGen grammar.IsLeftCorner outer inner →
      rank inner < rank outer := by
    intro outer inner chain
    induction chain with
    | single corner => exact corner.rank_lt ranking
    | tail _ corner inductionHypothesis =>
        exact Nat.lt_trans (corner.rank_lt ranking) inductionHypothesis
  intro cycle
  exact Nat.lt_irrefl _ (falls nonterminal nonterminal (beginsWith_iff.mp cycle))

end Search

end Grammar

end Predictive
