import Predictive.Grammar.Basic

/-!
Contract: the columns of a lookahead table and their numbering.

Owns: the enumeration of lookahead strings, the place of a string in it, and the test
for being a column.
Does not own: what a table holds in its columns.

The columns are the terminal strings of length 1 to the lookahead length, shorter ones
first and lexicographically within a length, then the empty string, which stands for the
end of the input. The place of a string is computed from its numeral in the base of the
number of terminals.
-/

namespace Predictive

/-- The column axis of a table. -/
structure Axis where
  /-- Number of terminals. -/
  terminals : Nat
  /-- Lookahead length. -/
  length : Nat
deriving DecidableEq, Repr

/-- All strings of a length over the terminals below `terminals`, lexicographically. -/
def stringsOfLength (terminals : Nat) : Nat → List (List Terminal)
  | 0 => [[]]
  | length + 1 => (List.range terminals).flatMap fun terminal =>
      (stringsOfLength terminals length).map (terminal :: ·)

/-- Number of strings of length 1 to `length`: each of them is a terminal before the empty
string or before a string of length 1 to `length - 1`. -/
def stringsUpTo (terminals : Nat) : Nat → Nat
  | 0 => 0
  | length + 1 => terminals * (stringsUpTo terminals length + 1)

/-- Value of a string read as a numeral, first terminal most significant. -/
def numeral (base : Nat) (string : List Terminal) : Nat :=
  string.foldl (fun value terminal => value * base + terminal) 0

namespace Axis

def columns (axis : Axis) : List (List Terminal) :=
  ((List.range axis.length).flatMap fun index => stringsOfLength axis.terminals (index + 1))
    ++ [[]]

def endColumn (axis : Axis) : Nat := stringsUpTo axis.terminals axis.length

def count (axis : Axis) : Nat := axis.endColumn + 1

/-- Whether a lookahead is a column: not too long, and of known terminals only. -/
def contains (axis : Axis) (lookahead : List Terminal) : Bool :=
  lookahead.length ≤ axis.length && lookahead.all (· < axis.terminals)

/-- Place of a lookahead among the columns. -/
def index? (axis : Axis) (lookahead : List Terminal) : Option Nat :=
  if lookahead.isEmpty then some axis.endColumn
  else if axis.contains lookahead then
    some (stringsUpTo axis.terminals (lookahead.length - 1) + numeral axis.terminals lookahead)
  else none

def column? (axis : Axis) (index : Nat) : Option (List Terminal) := axis.columns[index]?

end Axis

end Predictive
