import Predictive.Discovery
import Predictive.Table.Column

/-!
Contract: the columns of an axis as an odometer shows them.

Owns: the wheels and how they are turned on, and the collection of what they show.
Does not own: the columns that tables are numbered by. There the strings of a length come in
blocks by their first terminal; the two ways agree.

The last wheel is the fastest. A wheel that comes round to 0 turns the wheel in front of it, and
when all wheels show 0 again, every string of their number has been shown.
-/

namespace Predictive

namespace Odometer

/-- Turns the wheel in front of a place, and the wheels to the left of it for as long as one comes
round to 0. -/
def turnFrom (base : Nat) : Nat → List Terminal → List Terminal
  | 0, wheels => wheels
  | place + 1, wheels =>
      let turned := wheels.modify place (· + 1)
      if turned.getD place 0 < base then turned
      else turnFrom base place (turned.set place 0)

def turn (base : Nat) (wheels : List Terminal) : List Terminal :=
  turnFrom base wheels.length wheels

/-- Adds what the wheels show and turns them, until all show 0 again; none if so many turns are
not enough. -/
def collect (base : Nat) :
    Nat → List Terminal → List (List Terminal) → Option (List (List Terminal))
  | 0, _, _ => none
  | turns + 1, wheels, shown =>
      let more := Discovery.insertNew shown wheels
      let next := turn base wheels
      if next.all (· == 0) then some more else collect base turns next more

end Odometer

/-- The columns by odometer, one wheel first, with at most so many turns for each number of
wheels. -/
def Axis.columnsByOdometer (axis : Axis) (turns : Nat) : Option (List (List Terminal)) := do
  let strings ←
    if axis.terminals = 0 then some []
    else
      (List.range axis.length).foldlM (fun shown index =>
        Odometer.collect axis.terminals turns (List.replicate (index + 1) 0) shown) []
  return Discovery.insertNew strings []

end Predictive
