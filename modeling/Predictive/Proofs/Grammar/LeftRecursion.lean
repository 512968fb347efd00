import Mathlib.Data.List.Basic
import Mathlib.Logic.Relation
import Predictive.Grammar.LeftRecursion
import Predictive.Proofs.Grammar.Nullable

/-!
Contract: a search that finds no left recursion leaves a ranking behind, one that fails
has closed a cycle.

Owns: the order in which the depth-first search finishes nodes, the ranking read off it,
and the cycle of left corners that a failed search has walked.
Does not own: what left corners mean for derivations.

A node is finished after all its successors, so in the reverse of the finished list every
node stands behind its successors, and its place there is its rank. Nonterminals that are
no left corner of any rule are never visited and rank above all others.

While a search is under way every open node leads to the one it is at, so a node that is
met while it is open leads to itself. The depth does not run out before that: open nodes
are different, and there are more levels than nodes.
-/

namespace Predictive

/-- A list of different numbers below a bound is no longer than the bound. -/
theorem length_le_of_nodup_lt {numbers : List Nat} {bound : Nat} (nodup : numbers.Nodup)
    (below : ∀ number ∈ numbers, number < bound) : numbers.length ≤ bound := by
  have subset : numbers.toFinset ⊆ Finset.range bound := by
    intro number member
    exact Finset.mem_range.mpr (below number (List.mem_toFinset.mp member))
  have cards := Finset.card_le_card subset
  rwa [List.toFinset_card_of_nodup nodup, Finset.card_range] at cards

namespace LeftRecursion

variable {successors : Nonterminal → List Nonterminal}

/-- Each node stands in front of its successors and occurs once. -/
def IsFinished (successors : Nonterminal → List Nonterminal) : List Nonterminal → Prop
  | [] => True
  | node :: rest =>
      node ∉ rest ∧ (∀ next ∈ successors node, next ∈ rest) ∧ IsFinished successors rest

/-- What exploring nodes that satisfy `isRoot` adds to a finished list while `chain` is
open. -/
structure Extends (successors : Nonterminal → List Nonterminal) (chain finished after :
    List Nonterminal) (isRoot : Nonterminal → Prop) : Prop where
  ordered : IsFinished successors after
  keeps : ∀ node ∈ finished, node ∈ after
  added : ∀ node ∈ after, node ∈ finished ∨
    (node ∉ chain ∧ (isRoot node ∨ ∃ source, node ∈ successors source))

private theorem foldlM_extends {chain : List Nonterminal}
    {exploreOne : List Nonterminal → Nonterminal → Except Nonterminal (List Nonterminal)}
    (one : ∀ finished node after, IsFinished successors finished →
      exploreOne finished node = .ok after →
        Extends successors chain finished after (· = node) ∧ node ∈ after)
    (roots finished after : List Nonterminal) (ordered : IsFinished successors finished)
    (explored : roots.foldlM exploreOne finished = .ok after) :
    Extends successors chain finished after (· ∈ roots) ∧ ∀ root ∈ roots, root ∈ after := by
  induction roots generalizing finished with
  | nil =>
      cases explored
      exact ⟨⟨ordered, fun _ member => member, fun _ member => .inl member⟩, by simp⟩
  | cons root roots inductionHypothesis =>
      rw [List.foldlM_cons] at explored
      cases first : exploreOne finished root with
      | error node => rw [first] at explored; exact absurd explored (by simp [bind, Except.bind])
      | ok middle =>
          rw [first] at explored
          obtain ⟨front, rootMember⟩ := one finished root middle ordered first
          obtain ⟨back, restMember⟩ := inductionHypothesis middle front.ordered explored
          refine ⟨⟨back.ordered, fun node member => back.keeps node (front.keeps node member),
            ?_⟩, ?_⟩
          · intro node member
            rcases back.added node member with inMiddle | ⟨free, origin⟩
            · rcases front.added node inMiddle with before | ⟨free, same | source⟩
              · exact .inl before
              · exact .inr ⟨free, .inl (by simp [same])⟩
              · exact .inr ⟨free, .inr source⟩
            · exact .inr ⟨free, origin.imp_left (List.mem_cons_of_mem root)⟩
          · intro other member
            rcases List.mem_cons.mp member with rfl | later
            · exact back.keeps other rootMember
            · exact restMember other later

theorem explore_extends (depth : Nat) (chain finished : List Nonterminal) (node : Nonterminal)
    (after : List Nonterminal) (ordered : IsFinished successors finished)
    (explored : explore successors depth chain finished node = .ok after) :
    Extends successors chain finished after (· = node) ∧ node ∈ after := by
  induction depth generalizing chain finished node after with
  | zero => exact absurd explored (by simp [explore])
  | succ depth inductionHypothesis =>
      rw [explore] at explored
      split at explored
      · exact absurd explored (by simp)
      · rename_i notOpen
        split at explored
        · rename_i known
          cases explored
          exact ⟨⟨ordered, fun _ member => member, fun _ member => .inl member⟩, known⟩
        · rename_i new
          cases inner : (successors node).foldlM
            (explore successors depth (node :: chain)) finished with
          | error other =>
              rw [inner] at explored
              exact absurd explored (by simp [bind, Except.bind])
          | ok below =>
              rw [inner] at explored
              cases explored
              obtain ⟨extended, covered⟩ := foldlM_extends
                (inductionHypothesis (node :: chain)) (successors node) finished below ordered
                inner
              -- While the successors are explored the node is open, so none of them is it.
              have fresh : node ∉ below := by
                intro member
                rcases extended.added node member with before | ⟨free, _⟩
                · exact new before
                · exact free List.mem_cons_self
              refine ⟨⟨⟨fresh, covered, extended.ordered⟩,
                fun other member => List.mem_cons_of_mem node (extended.keeps other member),
                ?_⟩, List.mem_cons_self⟩
              intro other member
              rcases List.mem_cons.mp member with rfl | later
              · exact .inr ⟨notOpen, .inl rfl⟩
              · rcases extended.added other later with before | ⟨free, origin⟩
                · exact .inl before
                · refine .inr ⟨fun inChain => free (List.mem_cons_of_mem node inChain), .inr ?_⟩
                  rcases origin with successor | source
                  · exact ⟨node, successor⟩
                  · exact source

/-! ### The place in the order of finishing -/

/-- Place of a node among the finished ones, the first finished first; their number for a
node that was never visited. -/
def place (finished : List Nonterminal) (node : Nonterminal) : Nat :=
  finished.reverse.idxOf node

theorem place_lt_of_mem {finished : List Nonterminal} {node : Nonterminal}
    (member : node ∈ finished) : place finished node < finished.length := by
  have bound := List.idxOf_lt_length_of_mem (List.mem_reverse.mpr member)
  rwa [List.length_reverse] at bound

theorem place_of_notMem {finished : List Nonterminal} {node : Nonterminal}
    (absent : node ∉ finished) : place finished node = finished.length := by
  rw [place, List.idxOf_eq_length (by simpa using absent), List.length_reverse]

theorem IsFinished.mem_of_successor {finished : List Nonterminal}
    (ordered : IsFinished successors finished) {node next : Nonterminal}
    (member : node ∈ finished) (successor : next ∈ successors node) : next ∈ finished := by
  induction finished with
  | nil => exact absurd member List.not_mem_nil
  | cons head rest inductionHypothesis =>
      obtain ⟨_, covered, restOrdered⟩ := ordered
      rcases List.mem_cons.mp member with rfl | later
      · exact List.mem_cons_of_mem _ (covered next successor)
      · exact List.mem_cons_of_mem _ (inductionHypothesis restOrdered later)

theorem IsFinished.place_lt {finished : List Nonterminal} (ordered : IsFinished successors finished)
    {node next : Nonterminal} (member : node ∈ finished) (successor : next ∈ successors node) :
    place finished next < place finished node := by
  induction finished with
  | nil => exact absurd member List.not_mem_nil
  | cons head rest inductionHypothesis =>
      obtain ⟨absent, covered, restOrdered⟩ := ordered
      have inRest : ∀ other ∈ rest, place (head :: rest) other = place rest other := by
        intro other otherMember
        unfold place
        rw [List.reverse_cons, List.idxOf_append_of_mem (List.mem_reverse.mpr otherMember)]
      rcases List.mem_cons.mp member with rfl | later
      · have nextMember := covered next successor
        have nodePlace : place (node :: rest) node = rest.length := by
          unfold place
          rw [List.reverse_cons, List.idxOf_append_of_notMem (by simpa using absent)]
          simp
        rw [inRest next nextMember, nodePlace]
        exact place_lt_of_mem nextMember
      · have nextMember := restOrdered.mem_of_successor later successor
        rw [inRest next nextMember, inRest node later]
        exact inductionHypothesis restOrdered later

theorem IsFinished.nodup {finished : List Nonterminal}
    (ordered : IsFinished successors finished) : finished.Nodup := by
  induction finished with
  | nil => exact List.nodup_nil
  | cons node rest inductionHypothesis =>
      exact List.nodup_cons.mpr ⟨ordered.1, inductionHypothesis ordered.2.2⟩

/-! ### A failed search -/

/-- Whether a node is reached from another along at least one edge. -/
def LeadsTo (successors : Nonterminal → List Nonterminal) : Nonterminal → Nonterminal → Prop :=
  Relation.TransGen fun node next => next ∈ successors node

private theorem exists_error_of_foldlM {finished : List Nonterminal} {found : Nonterminal}
    {exploreOne : List Nonterminal → Nonterminal → Except Nonterminal (List Nonterminal)}
    {roots : List Nonterminal} (failed : roots.foldlM exploreOne finished = .error found) :
    ∃ root ∈ roots, ∃ before, exploreOne before root = .error found := by
  induction roots generalizing finished with
  | nil => exact absurd failed (by simp [pure, Except.pure])
  | cons root roots inductionHypothesis =>
      rw [List.foldlM_cons] at failed
      cases first : exploreOne finished root with
      | error node =>
          rw [first] at failed
          cases failed
          exact ⟨root, List.mem_cons_self, finished, first⟩
      | ok middle =>
          rw [first] at failed
          obtain ⟨other, member, before, later⟩ := inductionHypothesis failed
          exact ⟨other, List.mem_cons_of_mem root member, before, later⟩

theorem explore_error {size : Nat}
    (bounded : ∀ node, ∀ next ∈ successors node, next < size) (depth : Nat)
    {chain finished : List Nonterminal} {node found : Nonterminal}
    (walk : ∀ opened ∈ chain, LeadsTo successors opened node) (nodup : chain.Nodup)
    (chainBelow : ∀ opened ∈ chain, opened < size) (nodeBelow : node < size)
    (levels : size < depth + chain.length)
    (failed : explore successors depth chain finished node = .error found) :
    LeadsTo successors found found ∧ found < size := by
  induction depth generalizing chain finished node with
  | zero =>
      have atMost := length_le_of_nodup_lt nodup chainBelow
      omega
  | succ depth inductionHypothesis =>
      rw [explore] at failed
      split at failed
      · rename_i opened
        cases failed
        exact ⟨walk _ opened, nodeBelow⟩
      · rename_i notOpen
        split at failed
        · exact absurd failed (by simp)
        · cases inner : (successors node).foldlM
            (explore successors depth (node :: chain)) finished with
          | ok below => simp [inner, bind, Except.bind, pure, Except.pure] at failed
          | error other =>
              rw [inner] at failed
              cases failed
              obtain ⟨next, successor, before, failedBelow⟩ := exists_error_of_foldlM inner
              refine inductionHypothesis (fun opened member => ?_)
                (List.nodup_cons.mpr ⟨notOpen, nodup⟩) (fun opened member => ?_)
                (bounded node next successor) (by rw [List.length_cons]; omega) failedBelow
              · rcases List.mem_cons.mp member with rfl | earlier
                · exact .single successor
                · exact (walk opened earlier).tail successor
              · rcases List.mem_cons.mp member with rfl | earlier
                · exact nodeBelow
                · exact chainBelow opened earlier

end LeftRecursion

namespace Grammar

variable {grammar : Grammar}

/-- The place of a known nonterminal among the finished ones. An unknown one heads no rule and
occurs in none, so any rank will do. -/
def finishRank (grammar : Grammar) (finished : List Nonterminal) (nonterminal : Nonterminal) :
    Nat :=
  if nonterminal < grammar.nonterminals.size then LeftRecursion.place finished nonterminal else 0

theorem finishRank_lt {finished : List Nonterminal} (some_nonterminal : 0 < grammar.nonterminals.size)
    (nodup : finished.Nodup) (known : ∀ node ∈ finished, node < grammar.nonterminals.size)
    (nonterminal : Nonterminal) :
    grammar.finishRank finished nonterminal < grammar.nonterminals.size := by
  unfold finishRank
  split
  · rename_i inRange
    by_cases visited : nonterminal ∈ finished
    · exact Nat.lt_of_lt_of_le (LeftRecursion.place_lt_of_mem visited)
        (length_le_of_nodup_lt nodup known)
    · rw [LeftRecursion.place_of_notMem visited]
      have allKnown : ∀ other ∈ nonterminal :: finished, other < grammar.nonterminals.size := by
        intro other member
        rcases List.mem_cons.mp member with rfl | later
        · exact inRange
        · exact known other later
      exact length_le_of_nodup_lt (List.nodup_cons.mpr ⟨visited, nodup⟩) allKnown
  · exact some_nonterminal

/-- A finished left corner ranks below the nonterminal it is a corner of. -/
theorem finishRank_falls {finished : List Nonterminal}
    (ordered : LeftRecursion.IsFinished (grammar.cornersOf grammar.nullable) finished)
    (known : ∀ node ∈ finished, node < grammar.nonterminals.size) {rule : Rule}
    (member : rule ∈ grammar.rules) (leftKnown : rule.left < grammar.nonterminals.size)
    {corner : Nonterminal} (isCorner : corner ∈ leftCorners grammar.nullable rule.right)
    (visited : corner ∈ finished) :
    grammar.finishRank finished corner < grammar.finishRank finished rule.left := by
  unfold finishRank
  rw [if_pos (known corner visited), if_pos leftKnown]
  by_cases leftVisited : rule.left ∈ finished
  · apply ordered.place_lt leftVisited
    exact List.mem_flatMap.mpr ⟨rule, mem_rulesFor.mpr ⟨member, rfl⟩, isCorner⟩
  · rw [LeftRecursion.place_of_notMem leftVisited]
    exact LeftRecursion.place_lt_of_mem visited

/-- A search that does not fail finishes left corners only, each after its own, and misses
none. -/
theorem exists_finished (searched : grammar.leftRecursive? = none) :
    ∃ finished, LeftRecursion.IsFinished (grammar.cornersOf grammar.nullable) finished ∧
      (∀ node ∈ finished, ∃ rule ∈ grammar.rules,
        node ∈ leftCorners grammar.nullable rule.right) ∧
      ∀ rule ∈ grammar.rules, ∀ corner ∈ leftCorners grammar.nullable rule.right,
        corner ∈ finished := by
  dsimp only [leftRecursive?] at searched
  cases outcome : LeftRecursion.exploreAll (grammar.cornersOf grammar.nullable)
      (grammar.nonterminals.size + 1)
      (grammar.rules.flatMap fun rule => leftCorners grammar.nullable rule.right) with
  | error node => simp [outcome] at searched
  | ok finished =>
      obtain ⟨extended, covered⟩ := LeftRecursion.foldlM_extends
        (fun before node after => LeftRecursion.explore_extends _ [] before node after)
        _ [] finished trivial outcome
      refine ⟨finished, extended.ordered, ?_, ?_⟩
      · intro node member
        rcases extended.added node member with absurdMember | ⟨_, root | ⟨source, successor⟩⟩
        · exact absurd absurdMember List.not_mem_nil
        · exact List.mem_flatMap.mp root
        · obtain ⟨rule, ofSource, inRule⟩ := List.mem_flatMap.mp successor
          exact ⟨rule, (mem_rulesFor.mp ofSource).1, inRule⟩
      · intro rule member corner isCorner
        exact covered corner (List.mem_flatMap.mpr ⟨rule, member, isCorner⟩)

/-- A grammar in which the search finds no left recursion has a ranking. -/
theorem exists_ranking (some_nonterminal : 0 < grammar.nonterminals.size)
    (leftKnown : ∀ rule ∈ grammar.rules, rule.left < grammar.nonterminals.size)
    (rightKnown : ∀ rule ∈ grammar.rules, grammar.KnowsAll rule.right)
    (searched : grammar.leftRecursive? = none) : ∃ rank, grammar.IsRanking rank := by
  obtain ⟨finished, ordered, corners, covered⟩ := exists_finished searched
  have known : ∀ node ∈ finished, node < grammar.nonterminals.size := by
    intro node member
    obtain ⟨rule, ruleMember, isCorner⟩ := corners node member
    exact rightKnown rule ruleMember _ (mem_of_mem_leftCorners isCorner)
  refine ⟨grammar.finishRank finished, finishRank_lt some_nonterminal ordered.nodup known, ?_⟩
  intro rule member before nonterminal after split erased
  have isCorner : nonterminal ∈ leftCorners grammar.nullable rule.right :=
    mem_leftCorners_iff.mpr ⟨before, after, split, all_nullable_of_derives leftKnown erased⟩
  exact finishRank_falls ordered known member (leftKnown rule member) isCorner
    (covered rule member nonterminal isCorner)

/-- What the search finds is a nonterminal that left corners lead back to. -/
theorem leadsTo_of_leftRecursive? (rightKnown : ∀ rule ∈ grammar.rules, grammar.KnowsAll rule.right)
    {found : Nonterminal} (searched : grammar.leftRecursive? = some found) :
    LeftRecursion.LeadsTo (grammar.cornersOf grammar.nullable) found found ∧
      found < grammar.nonterminals.size := by
  have bounded : ∀ rule ∈ grammar.rules, ∀ corner ∈ leftCorners grammar.nullable rule.right,
      corner < grammar.nonterminals.size := by
    intro rule member corner isCorner
    exact rightKnown rule member _ (mem_of_mem_leftCorners isCorner)
  dsimp only [leftRecursive?] at searched
  cases outcome : LeftRecursion.exploreAll (grammar.cornersOf grammar.nullable)
      (grammar.nonterminals.size + 1)
      (grammar.rules.flatMap fun rule => leftCorners grammar.nullable rule.right) with
  | ok finished => simp [outcome] at searched
  | error node =>
      rw [outcome] at searched
      cases searched
      obtain ⟨root, isRoot, before, failed⟩ := LeftRecursion.exists_error_of_foldlM outcome
      obtain ⟨rule, member, isCorner⟩ := List.mem_flatMap.mp isRoot
      refine LeftRecursion.explore_error ?_ _ (by simp) List.nodup_nil (by simp)
        (bounded rule member root isCorner) (Nat.lt_succ_self _) failed
      intro source next successor
      obtain ⟨rule, ofSource, inRule⟩ := List.mem_flatMap.mp successor
      exact bounded rule (mem_rulesFor.mp ofSource).1 next inRule

end Grammar

end Predictive
