import Predictive.Grammar.Reachable
import Predictive.Lookahead.Follow
import Predictive.Table.Column

/-!
Contract: the canonical states of a grammar at a lookahead length.

Owns: pushdown symbols, states with one choice per rule, and the contexts that the start
context leads to.
Does not own: the table over the states.

A state is identified by its context; its number is the place of that context in the
order of discovery, which is breadth first. There are at most `contextBound` contexts
over a grammar's symbols, so the search, which takes one context per step, ends before
its steps are used up. The search that files rows as it goes says so itself if it may not.
-/

namespace Predictive

/-- A symbol on the pushdown, and at the same time a row of a table. -/
inductive StackSymbol where
  | state (number : Nat)
  | terminal (number : Terminal)
  | bottom
deriving DecidableEq, Repr

namespace StackSymbol

def name (grammar : Grammar) : StackSymbol → String
  | .state number => s!"T{number}"
  | .terminal number => grammar.terminalName number
  | .bottom => "#"

end StackSymbol

/-- A right side on the pushdown: each nonterminal occurrence becomes its state. -/
def stackSymbols : List Symbol → List Nat → List StackSymbol
  | [], _ => []
  | .terminal number :: rest, targets => .terminal number :: stackSymbols rest targets
  | .nonterminal _ :: rest, target :: targets => .state target :: stackSymbols rest targets
  | .nonterminal _ :: rest, [] => stackSymbols rest []

/-- What a state does with one rule of its nonterminal. -/
structure Choice where
  rule : Rule
  /-- The lookaheads under which the rule is chosen. -/
  lookaheads : LookaheadSet
  /-- One context per nonterminal occurrence of the right side. -/
  contexts : List Context
  /-- The number of the state of each of those contexts. -/
  targets : List Nat
deriving DecidableEq, Repr

/-- The right side as it goes on the pushdown. -/
def Choice.replacement (choice : Choice) : List StackSymbol :=
  stackSymbols choice.rule.right choice.targets

structure State where
  key : Context
  choices : List Choice
deriving DecidableEq, Repr

/-- Every lookahead of a state with the choice it leads to, by rule, then in the order of
the lookaheads. -/
def State.rows (state : State) : List (BoundedString × Choice) :=
  state.choices.flatMap fun choice => choice.lookaheads.strings.map fun lookahead =>
    (lookahead, choice)

namespace Grammar

def axis (grammar : Grammar) (length : Nat) : Axis := ⟨grammar.terminals.size, length⟩

/-- Number of pairs of a nonterminal and a set of lookaheads. -/
def contextBound (grammar : Grammar) (length : Nat) : Nat :=
  grammar.nonterminals.size * Nat.pow 2 (grammar.axis length).count

def startContext (grammar : Grammar) (length : Nat) : Context :=
  ⟨grammar.start, LookaheadSet.endOfInput length⟩

end Grammar

/-- The profiles of a nonterminal's rules. -/
def profilesFor (profiles : List RuleProfile) (nonterminal : Nonterminal) :
    List RuleProfile :=
  profiles.filter fun profile => profile.rule.left == nonterminal

/-- The contexts that one expansion of a context puts on the pushdown. -/
def successorContexts (profiles : List RuleProfile) (length : Nat) (context : Context) :
    List Context :=
  (profilesFor profiles context.nonterminal).flatMap fun profile =>
    profile.contexts length context.follow

/-- The contexts that the start context leads to, in the order of discovery. -/
def reachableContexts (grammar : Grammar) (length : Nat) (profiles : List RuleProfile) :
    List Context :=
  Discovery.explore (successorContexts profiles length) (grammar.contextBound length) 0
    [grammar.startContext length]

/-- The state of a context, its targets numbered by their place in `keys`. -/
def stateOf (profiles : List RuleProfile) (length : Nat) (keys : List Context)
    (key : Context) : State where
  key := key
  choices := (profilesFor profiles key.nonterminal).map fun profile =>
    let contexts := profile.contexts length key.follow
    { rule := profile.rule
      lookaheads := profile.lookaheads length key.follow
      contexts := contexts
      targets := contexts.map (keys.idxOf ·) }

/-- The canonical states, each at the place of its number. -/
def Grammar.states (grammar : Grammar) (length : Nat) : Except Nonterminal (List State) := do
  let profiles ← grammar.reachableRules.mapM (grammar.profile length)
  let keys := reachableContexts grammar length profiles
  return keys.map (stateOf profiles length keys)

end Predictive
