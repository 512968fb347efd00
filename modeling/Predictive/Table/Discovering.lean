import Predictive.Table.State

/-!
Contract: the states of a grammar by a search that lists rows and numbers their targets as it goes.

Owns: rows and states as they are found, the rows of one state, the numbers of their contexts, and
the search with its steps.
Does not own: the states that tables use. Their contexts are explored first and numbered when all
of them are known; the two agree.

The list of states grows while it is gone through. A context that is met gets the number of the
state that has it as key, and a state without rows is put at the end if there is none.
-/

namespace Predictive

/-- A lookahead of a state with what its rule does. -/
structure FoundRow where
  lookahead : BoundedString
  /-- The number of the rule. -/
  rule : Nat
  contexts : List Context
  /-- The numbers of the contexts, as far as they have been looked up. -/
  targets : List Nat
deriving DecidableEq, Repr

/-- A state with the rows that have been filed for it. -/
structure FoundState where
  key : Context
  rows : List FoundRow
deriving DecidableEq, Repr

/-- The rows of a rule under a context, one for each lookahead, before any target is numbered. -/
def Grammar.rowsOf (grammar : Grammar) (key : Context) (length : Nat) (rule : Rule) :
    Except Nonterminal (List FoundRow) := do
  let leading ← grammar.first rule.right length
  let contexts ← grammar.follow rule key.follow length
  return (LookaheadSet.concat length leading key.follow).strings.map fun lookahead =>
    ⟨lookahead, rule.number, contexts, []⟩

/-- The rows of a state, rule by rule. -/
def Grammar.stateRows (grammar : Grammar) (key : Context) (length : Nat) :
    Except Nonterminal (List FoundRow) := do
  let rows ← (grammar.rulesFor key.nonterminal).mapM (grammar.rowsOf key length)
  return rows.flatten

namespace Discovery

/-- Adds the number of a context to the targets of a row. -/
def numberContext (progress : List FoundState × FoundRow) (context : Context) :
    List FoundState × FoundRow :=
  let (found, row) := progress
  match (found.map FoundState.key).idxOf? context with
  | some place => (found, { row with targets := row.targets ++ [place] })
  | none => (found ++ [⟨context, []⟩], { row with targets := row.targets ++ [found.length] })

/-- Numbers the contexts of rows, one row after the other. -/
def numberRows : List FoundState → List FoundRow → List FoundState × List FoundRow
  | found, [] => (found, [])
  | found, row :: rows =>
      let (middle, numbered) := row.contexts.foldl numberContext (found, row)
      let (later, others) := numberRows middle rows
      (later, numbered :: others)

/-- Files the rows of the states from a number on, for at most so many states; none if these are
not enough. -/
def discoverFrom (grammar : Grammar) (length : Nat) :
    Nat → Nat → List FoundState → Option (Except Nonterminal (List FoundState))
  | 0, _, _ => none
  | steps + 1, number, found =>
      match found[number]? with
      | none => some (.ok found)
      | some state =>
          match grammar.stateRows state.key length with
          | .error nonterminal => some (.error nonterminal)
          | .ok rows =>
              let (later, numbered) := numberRows found rows
              discoverFrom grammar length steps (number + 1)
                (later.set number ⟨state.key, numbered⟩)

end Discovery

/-- The states that the start context leads to, each at the place of its number. -/
def Grammar.discover (grammar : Grammar) (steps length : Nat) :
    Option (Except Nonterminal (List FoundState)) :=
  Discovery.discoverFrom grammar length steps 0 [⟨grammar.startContext length, []⟩]

/-- What a state files. -/
def State.found (state : State) : FoundState where
  key := state.key
  rows := state.rows.map fun row =>
    ⟨row.1, row.2.rule.number, row.2.contexts, row.2.targets⟩

end Predictive
