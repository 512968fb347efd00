import Predictive.Run.Basic

/-!
Contract: parsing by the lookahead table, which sees the next input terminals at once.

Owns: the configurations of such a run, its step, and its result.
Does not own: the table's actions.
-/

namespace Predictive

structure WindowConfiguration where
  /-- The pushdown, top first. -/
  stack : List StackSymbol
  /-- The input not yet consumed. -/
  rest : List Terminal
  /-- Number of terminals consumed. -/
  position : Nat
deriving DecidableEq, Repr

abbrev WindowRun := Run WindowConfiguration StackSymbol (List Terminal)

namespace LookaheadTable

/-- The start state above the bottom, before the whole input. -/
def initial (table : LookaheadTable) (input : List Terminal) : WindowConfiguration :=
  ⟨[.state table.start, .bottom], input, 0⟩

/-- The next terminals, as many as the table looks at. -/
def window (table : LookaheadTable) (configuration : WindowConfiguration) : List Terminal :=
  configuration.rest.take table.length

def step (table : LookaheadTable) (configuration : WindowConfiguration) :
    Step WindowConfiguration StackSymbol (List Terminal) :=
  match configuration.stack with
  | [] => .failed .unfinished
  | top :: below =>
      let window := table.window configuration
      match table.select top window with
      | [] => .failed (.noAction top window configuration.position)
      | [.accept] => .accepted
      | [.pop] =>
          .moved .pop ⟨below, configuration.rest.tail, configuration.position + 1⟩
      | [.expand rule replacement] =>
          .moved (.expand rule) { configuration with stack := replacement ++ below }
      | _ => .failed (.ambiguous top window)

def run (grammar : Grammar) (table : LookaheadTable) (input : List Terminal) : WindowRun :=
  Run.iterate table.step (grammar.stepBound input.length) (table.initial input)

def parse (grammar : Grammar) (table : LookaheadTable) (input : List Terminal) :
    Except (ParseFailure StackSymbol (List Terminal)) LeftParse :=
  (table.run grammar input).result

end LookaheadTable

end Predictive
