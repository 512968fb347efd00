import Mathlib.Data.Finset.Card
import Mathlib.Logic.Relation
import Predictive.Discovery

/-!
Contract: discovery finds exactly what the start leads to.

Owns: the invariant of the discovery loop, the order in which it finds nodes and, for a
sufficient number of steps, the members of its result.
Does not own: how many steps are enough for a particular graph.

The loop keeps a prefix of processed nodes, whose successors are all found. A bound on the
number of different reachable nodes bounds the found ones, so once that many steps have
been made the processed prefix is the whole list.
-/

namespace Predictive

namespace Discovery

variable {Node : Type} [DecidableEq Node] {successors : Node → List Node} {start : Node}

/-- What the start leads to. -/
def LeadsTo (successors : Node → List Node) : Node → Node → Prop :=
  Relation.ReflTransGen fun node next => next ∈ successors node

/-- What holds of the found nodes when those before `index` have been processed. -/
structure Invariant (successors : Node → List Node) (start : Node) (index : Nat)
    (found : List Node) : Prop where
  nodup : found.Nodup
  starts : found[0]? = some start
  reached : ∀ node ∈ found, LeadsTo successors start node
  processed : ∀ place < index, ∀ node, found[place]? = some node →
    ∀ next ∈ successors node, next ∈ found

/-! ### Adding nodes -/

theorem mem_foldl_insertNew (nodes found : List Node) (node : Node) :
    node ∈ nodes.foldl insertNew found ↔ node ∈ found ∨ node ∈ nodes := by
  induction nodes generalizing found with
  | nil => simp
  | cons head nodes inductionHypothesis =>
      rw [List.foldl_cons, inductionHypothesis, List.mem_cons]
      unfold insertNew
      split
      · rename_i known
        constructor
        · exact Or.imp_right Or.inr
        · rintro (inFound | rfl | inNodes)
          · exact .inl inFound
          · exact .inl known
          · exact .inr inNodes
      · rw [List.mem_append, List.mem_singleton, or_assoc]

theorem nodup_foldl_insertNew (nodes found : List Node) (nodup : found.Nodup) :
    (nodes.foldl insertNew found).Nodup := by
  induction nodes generalizing found with
  | nil => exact nodup
  | cons head nodes inductionHypothesis =>
      rw [List.foldl_cons]
      apply inductionHypothesis
      unfold insertNew
      split
      · exact nodup
      · rename_i new
        rw [List.nodup_append]
        refine ⟨nodup, by simp, ?_⟩
        intro node member other otherMember same
        rw [List.mem_singleton] at otherMember
        exact new (otherMember ▸ same ▸ member)

/-- Whatever is added stands behind what was found, and is among the new nodes. -/
theorem exists_added (nodes found : List Node) :
    ∃ added, nodes.foldl insertNew found = found ++ added ∧ ∀ node ∈ added, node ∈ nodes := by
  induction nodes generalizing found with
  | nil => exact ⟨[], (List.append_nil found).symm, by simp⟩
  | cons head nodes inductionHypothesis =>
      rw [List.foldl_cons]
      obtain ⟨added, extended, among⟩ := inductionHypothesis (insertNew found head)
      rw [extended]
      unfold insertNew
      split
      · exact ⟨added, rfl, fun node member => List.mem_cons_of_mem head (among node member)⟩
      · refine ⟨head :: added, by rw [List.append_assoc, List.singleton_append], ?_⟩
        intro node member
        rcases List.mem_cons.mp member with rfl | later
        · exact List.mem_cons_self
        · exact List.mem_cons_of_mem head (among node later)

theorem prefix_foldl_insertNew (nodes found : List Node) :
    found <+: nodes.foldl insertNew found := by
  obtain ⟨added, extended, _⟩ := exists_added nodes found
  exact ⟨added, extended.symm⟩

/-- Nodes that were found keep their places. -/
theorem getElem?_foldl_insertNew {nodes found : List Node} {place : Nat}
    (bound : place < found.length) :
    (nodes.foldl insertNew found)[place]? = found[place]? := by
  obtain ⟨added, extended⟩ := prefix_foldl_insertNew nodes found
  rw [← extended, List.getElem?_append_left bound]

/-- New nodes are added as they come. -/
theorem foldl_insertNew_of_nodup {nodes found : List Node} (nodup : (found ++ nodes).Nodup) :
    nodes.foldl insertNew found = found ++ nodes := by
  induction nodes generalizing found with
  | nil => exact (List.append_nil found).symm
  | cons head nodes inductionHypothesis =>
      have new : head ∉ found := fun member =>
        (List.nodup_append.mp nodup).2.2 head member head List.mem_cons_self rfl
      rw [← List.singleton_append, ← List.append_assoc] at nodup
      rw [List.foldl_cons, insertNew, if_neg new, inductionHypothesis nodup, List.append_assoc,
        List.singleton_append]

/-- Nodes that are known are not added again. -/
theorem foldl_insertNew_of_known {nodes found : List Node} (known : ∀ node ∈ nodes, node ∈ found) :
    nodes.foldl insertNew found = found := by
  induction nodes with
  | nil => rfl
  | cons head nodes inductionHypothesis =>
      obtain ⟨headKnown, nodesKnown⟩ := List.forall_mem_cons.mp known
      rw [List.foldl_cons, insertNew, if_pos headKnown, inductionHypothesis nodesKnown]

/-- It makes no difference how often the nodes of an item come, as long as they come. -/
theorem foldl_insertNew_repeated {Item Label : Type} {labels : Item → List Label}
    (nodes : Item → List Node) {items : List Item} (each : ∀ item ∈ items, labels item ≠ [])
    (found : List Node) :
    (items.flatMap fun item => (labels item).flatMap fun _ => nodes item).foldl insertNew found =
      (items.flatMap nodes).foldl insertNew found := by
  induction items generalizing found with
  | nil => rfl
  | cons item items inductionHypothesis =>
      obtain ⟨nonempty, others⟩ := List.forall_mem_cons.mp each
      obtain ⟨label, labelsBehind, split⟩ := List.exists_cons_of_ne_nil nonempty
      have again : (labelsBehind.flatMap fun _ => nodes item).foldl insertNew
          ((nodes item).foldl insertNew found) = (nodes item).foldl insertNew found := by
        apply foldl_insertNew_of_known
        intro node member
        obtain ⟨_, _, ofItem⟩ := List.mem_flatMap.mp member
        exact (mem_foldl_insertNew _ _ _).mpr (.inr ofItem)
      rw [List.flatMap_cons, List.flatMap_cons, split, List.flatMap_cons, List.foldl_append,
        List.foldl_append, List.foldl_append, again, inductionHypothesis others]

/-! ### The loop -/

theorem Invariant.step {index : Nat} {found : List Node} {node : Node}
    (invariant : Invariant successors start index found) (next : found[index]? = some node) :
    Invariant successors start (index + 1) ((successors node).foldl insertNew found) where
  nodup := nodup_foldl_insertNew _ _ invariant.nodup
  starts := by
    rw [getElem?_foldl_insertNew (List.getElem?_eq_some_iff.mp invariant.starts).1]
    exact invariant.starts
  reached := by
    intro other member
    rcases (mem_foldl_insertNew _ _ _).mp member with known | successor
    · exact invariant.reached other known
    · exact (invariant.reached node (List.mem_of_getElem? next)).tail successor
  processed := by
    intro place before other atPlace following successor
    have bound := (List.getElem?_eq_some_iff.mp next).1
    rw [getElem?_foldl_insertNew (by omega)] at atPlace
    rw [mem_foldl_insertNew]
    rcases Nat.lt_succ_iff_lt_or_eq.mp before with earlier | rfl
    · exact .inl (invariant.processed place earlier other atPlace following successor)
    · rw [next] at atPlace
      exact .inr (Option.some.inj atPlace ▸ successor)

/-- After sufficiently many steps the result satisfies the invariant as a whole. -/
theorem explore_invariant {steps index : Nat} {found : List Node}
    (invariant : Invariant successors start index found)
    (enough : ∀ nodes : List Node, nodes.Nodup → (∀ node ∈ nodes, LeadsTo successors start node) →
      nodes.length ≤ steps + index) :
    Invariant successors start (explore successors steps index found).length
      (explore successors steps index found) := by
  induction steps generalizing index found with
  | zero =>
      rw [explore]
      have short := enough found invariant.nodup invariant.reached
      exact ⟨invariant.nodup, invariant.starts, invariant.reached,
        fun place before => invariant.processed place (by omega)⟩
  | succ steps inductionHypothesis =>
      rw [explore]
      split
      · rename_i nothing
        have all := List.getElem?_eq_none_iff.mp nothing
        exact ⟨invariant.nodup, invariant.starts, invariant.reached,
          fun place before => invariant.processed place (by omega)⟩
      · rename_i node next
        apply inductionHypothesis (invariant.step next)
        intro nodes nodup reached
        have bound := enough nodes nodup reached
        omega

theorem prefix_explore (steps index : Nat) (found : List Node) :
    found <+: explore successors steps index found := by
  induction steps generalizing index found with
  | zero => exact List.prefix_refl found
  | succ steps inductionHypothesis =>
      rw [explore]
      split
      · exact List.prefix_refl found
      · exact (prefix_foldl_insertNew _ found).trans (inductionHypothesis _ _)

/-- An exploration that comes to everything can be cut off after any node. -/
theorem exists_explore_step {steps index : Nat} {found all : List Node} {node : Node}
    (explores : explore successors steps index found = all) (next : found[index]? = some node)
    (closed : ∀ successor ∈ successors node, successor ∈ all) :
    ∃ fewer, explore successors fewer (index + 1) ((successors node).foldl insertNew found) =
      all := by
  cases steps with
  | zero =>
      have complete : found = all := explores
      refine ⟨0, ?_⟩
      rw [complete, foldl_insertNew_of_known closed]
      rfl
  | succ steps =>
      refine ⟨steps, ?_⟩
      rwa [explore, next] at explores

/-! ### The order of discovery -/

/-- Whether every node but the first is a successor of a node in front of it. -/
def IsPreceded (successors : Node → List Node) (found : List Node) : Prop :=
  ∀ place node, 0 < place → found[place]? = some node →
    ∃ earlier < place, ∃ source, found[earlier]? = some source ∧ node ∈ successors source

theorem IsPreceded.step {index : Nat} {found : List Node} {node : Node}
    (preceded : IsPreceded successors found) (next : found[index]? = some node) :
    IsPreceded successors ((successors node).foldl insertNew found) := by
  intro place other positive atPlace
  have indexBound := (List.getElem?_eq_some_iff.mp next).1
  by_cases known : place < found.length
  · rw [getElem?_foldl_insertNew known] at atPlace
    obtain ⟨earlier, before, source, atEarlier, successor⟩ :=
      preceded place other positive atPlace
    refine ⟨earlier, before, source, ?_, successor⟩
    rwa [getElem?_foldl_insertNew (by omega)]
  · obtain ⟨added, extended, among⟩ := exists_added (successors node) found
    rw [extended, List.getElem?_append_right (by omega)] at atPlace
    refine ⟨index, by omega, node, ?_, among other (List.mem_of_getElem? atPlace)⟩
    rwa [getElem?_foldl_insertNew indexBound]

theorem explore_preceded (steps index : Nat) {found : List Node}
    (preceded : IsPreceded successors found) :
    IsPreceded successors (explore successors steps index found) := by
  induction steps generalizing index found with
  | zero => exact preceded
  | succ steps inductionHypothesis =>
      rw [explore]
      split
      · exact preceded
      · rename_i node next
        exact inductionHypothesis (index + 1) (preceded.step next)

omit [DecidableEq Node] in
theorem isPreceded_singleton (node : Node) : IsPreceded successors [node] := by
  intro place other positive atPlace
  rw [List.getElem?_eq_none positive] at atPlace
  exact absurd atPlace (by simp)

/-! ### A complete discovery -/

/-- A discovery with enough steps. -/
structure Complete (successors : Node → List Node) (start : Node) (found : List Node) :
    Prop where
  nodup : found.Nodup
  starts : found[0]? = some start
  mem_iff : ∀ node, node ∈ found ↔ LeadsTo successors start node

theorem explore_complete {steps : Nat}
    (enough : ∀ nodes : List Node, nodes.Nodup → (∀ node ∈ nodes, LeadsTo successors start node) →
      nodes.length ≤ steps) :
    Complete successors start (explore successors steps 0 [start]) := by
  have initial : Invariant successors start 0 [start] :=
    ⟨List.nodup_singleton start, rfl, by
      intro node member
      rw [List.mem_singleton.mp member]
      exact Relation.ReflTransGen.refl, by simp⟩
  have invariant := explore_invariant initial enough
  refine ⟨invariant.nodup, invariant.starts, ?_⟩
  intro node
  constructor
  · exact invariant.reached node
  · intro reached
    induction reached with
    | refl => exact List.mem_of_getElem? invariant.starts
    | tail _ successor inductionHypothesis =>
        obtain ⟨place, atPlace⟩ := List.mem_iff_getElem?.mp inductionHypothesis
        have before := (List.getElem?_eq_some_iff.mp atPlace).1
        exact invariant.processed place before _ atPlace _ successor

end Discovery

end Predictive
