/-!
Contract: everything that can be reached step by step from a start.

Owns: breadth-first discovery in a list without repetition.
Does not own: what is discovered, and how many steps are enough.
-/

namespace Predictive

namespace Discovery

variable {Node : Type} [DecidableEq Node]

/-- Adds a node at the end unless it is known. -/
def insertNew (found : List Node) (node : Node) : List Node :=
  if node ∈ found then found else found ++ [node]

/-- Takes the found nodes in turn, from `index` on, and adds the successors of each. -/
def explore (successors : Node → List Node) : Nat → Nat → List Node → List Node
  | 0, _, found => found
  | steps + 1, index, found =>
      match found[index]? with
      | none => found
      | some node =>
          explore successors steps (index + 1) ((successors node).foldl insertNew found)

end Discovery

end Predictive
