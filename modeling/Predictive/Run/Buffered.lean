import Predictive.Run.Basic

/-!
Contract: parsing by the buffered table, which reads one input symbol per change.

Owns: the configurations of such a run, its step, and its result.
Does not own: the table's actions.
-/

namespace Predictive

structure BufferedConfiguration where
  /-- The pushdown, top first. -/
  stack : List StackSymbol
  buffer : List BufferSymbol
  /-- The input not yet read into the buffer. -/
  rest : List Terminal
  /-- Number of terminals read. -/
  position : Nat
deriving DecidableEq, Repr

abbrev BufferedRun := Run BufferedConfiguration BufferedRow (List BufferSymbol)

namespace BufferedTable

/-- The start state above the bottom, an empty buffer, before the whole input. -/
def initial (table : BufferedTable) (input : List Terminal) : BufferedConfiguration :=
  ⟨[.state table.start, .bottom], [], input, 0⟩

/-- The row that a configuration selects: that of the next input symbol while the buffer
is short, else that of the pushdown top. -/
def row (table : BufferedTable) (top : StackSymbol) (configuration : BufferedConfiguration) :
    BufferedRow :=
  if configuration.buffer.length < table.length then
    match configuration.rest with
    | terminal :: _ => .input terminal
    | [] => .inputEnd
  else .stack top

def step (table : BufferedTable) (configuration : BufferedConfiguration) :
    Step BufferedConfiguration BufferedRow (List BufferSymbol) :=
  match configuration.stack with
  | [] => .failed .unfinished
  | top :: below =>
      let row := table.row top configuration
      match table.select row configuration.buffer with
      | [] => .failed (.noAction row configuration.buffer configuration.position)
      | [.accept] => .accepted
      | [.pop target] =>
          .moved .pop { configuration with stack := below, buffer := target }
      | [.expand rule replacement] =>
          .moved (.expand rule) { configuration with stack := replacement ++ below }
      | [.change target] =>
          .moved (.change target)
            { configuration with
              buffer := target
              rest := configuration.rest.tail
              position :=
                if configuration.rest.isEmpty then configuration.position
                else configuration.position + 1 }
      | _ => .failed (.ambiguous row configuration.buffer)

/-- Every terminal and the end of the input are read once on top of the steps that the
lookahead table needs. -/
def run (grammar : Grammar) (table : BufferedTable) (input : List Terminal) : BufferedRun :=
  Run.iterate table.step (grammar.stepBound input.length + input.length + 1)
    (table.initial input)

def parse (grammar : Grammar) (table : BufferedTable) (input : List Terminal) :
    Except (ParseFailure BufferedRow (List BufferSymbol)) LeftParse :=
  (table.run grammar input).result

end BufferedTable

end Predictive
