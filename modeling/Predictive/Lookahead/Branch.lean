import Predictive.Lookahead.LookaheadSet

/-!
Contract: FIRST by a search that follows each leftmost derivation as a branch of its own.

Owns: branches, their moves with the guard against left recursion, and the search.
Does not own: FIRST as the tables use it. That one collects the strings of all branches
symbol by symbol; where there is no left recursion the two agree.

A branch is inside of the nonterminals it has opened and not left yet, each kept with the
number of terminals there were when it was opened. Opening one again with nothing consumed
since is left recursion, and ends the search.
-/

namespace Predictive

namespace First

/-- What a branch has still to do. -/
inductive Task where
  | derive (symbol : Symbol)
  /-- Leaves the nonterminal opened last. -/
  | leave
deriving DecidableEq, Repr

structure Branch where
  /-- The terminals derived so far. -/
  front : BoundedString
  tasks : List Task
  /-- The nonterminals it is inside of, the last one first, with the length of the front
  when each was opened. -/
  opened : List (Nonterminal × Nat)
deriving DecidableEq, Repr

inductive Progress where
  | ended (string : BoundedString)
  | onward (next : Branch)
  | forked (branches : List Branch)
  | repeated (nonterminal : Nonterminal)
deriving DecidableEq, Repr

namespace Branch

def start (limit : Nat) (form : List Symbol) : Branch :=
  ⟨BoundedString.empty limit, form.map .derive, []⟩

/-- The branch that opens the left side of a rule to go on with the right side. -/
def enter (front : BoundedString) (behind : List Task) (opened : List (Nonterminal × Nat))
    (rule : Rule) : Branch :=
  ⟨front, rule.right.map .derive ++ .leave :: behind, (rule.left, front.length) :: opened⟩

/-- One move. A full front is not carried on, whatever is left to do. -/
def advance (grammar : Grammar) (branch : Branch) : Progress :=
  if branch.front.isFull then .ended branch.front
  else
    match branch.tasks with
    | [] => .ended branch.front
    | .leave :: behind => .onward ⟨branch.front, behind, branch.opened.tail⟩
    | .derive (.terminal terminal) :: behind =>
        .onward ⟨(branch.front.push? terminal).getD branch.front, behind, branch.opened⟩
    | .derive (.nonterminal nonterminal) :: behind =>
        if (nonterminal, branch.front.length) ∈ branch.opened then .repeated nonterminal
        else .forked ((grammar.rulesFor nonterminal).map (enter branch.front behind branch.opened))

end Branch

/-- Follows branches one after the other, adding to the strings found, for at most so many
moves; none if these are not enough. The error is a nonterminal opened again with nothing
consumed since. -/
def search (grammar : Grammar) :
    Nat → List Branch → LookaheadSet → Option (Except Nonterminal LookaheadSet)
  | 0, _, _ => none
  | _ + 1, [], found => some (.ok found)
  | moves + 1, branch :: others, found =>
      match branch.advance grammar with
      | .ended string => search grammar moves others (found.union (LookaheadSet.ofList [string]))
      | .onward next => search grammar moves (next :: others) found
      | .forked branches => search grammar moves (branches ++ others) found
      | .repeated nonterminal => some (.error nonterminal)

end First

/-- FIRST of a symbol string by search. -/
def Grammar.firstByBranches (grammar : Grammar) (moves : Nat) (symbols : List Symbol)
    (length : Nat) : Option (Except Nonterminal LookaheadSet) :=
  First.search grammar moves [First.Branch.start length symbols] LookaheadSet.empty

end Predictive
