import Predictive.Lookahead.LookaheadSet

/-!
Contract: the beginnings of the words that a symbol string derives.

Owns: FIRST of a symbol string at any length, and the depth to which expansions nest.
Does not own: what follows a symbol string in a sentential form.

A string shorter than the length is a whole derived word, one that reaches it a
beginning; what stands behind a full beginning is never looked at. A nonterminal
without rules contributes nothing.

The beginnings of a string are found symbol by symbol, each set of them collected before
the next symbol is read, so strings that agree are carried on once.

Nested expansions either leave less room or, in a grammar without left recursion, never
repeat a nonterminal. So `room * nonterminals` of them are enough, and running out of
depth names a left-recursive nonterminal.
-/

namespace Predictive

namespace First

/-- Strings followed by a nonterminal's beginnings in the room that is left. Strings of
equal length share the expansion. -/
def followedBy (expand : Nat → Except Nonterminal LookaheadSet) (limit : Nat)
    (strings : List BoundedString) : Except Nonterminal (List BoundedString) := do
  let groups ← (strings.map BoundedString.length).eraseDups.mapM fun length => do
    let words := (← expand (limit - length)).words
    return (strings.filter (·.length == length)).flatMap fun string =>
      words.map fun word => BoundedString.cut limit (string.terminals ++ word)
  return groups.flatten

/-- The beginnings found so far, those that are not full carried on over one symbol. -/
def extend (expand : Nonterminal → Nat → Except Nonterminal LookaheadSet) (limit : Nat)
    (found : LookaheadSet) (symbol : Symbol) : Except Nonterminal LookaheadSet := do
  let partway := found.strings.filter (!·.isFull)
  let longer ← match symbol with
    | .terminal terminal =>
        .ok (partway.map fun string => BoundedString.cut limit (string.terminals ++ [terminal]))
    | .nonterminal nonterminal => followedBy (expand nonterminal) limit partway
  return (found.filter BoundedString.isFull).union (LookaheadSet.ofList longer)

/-- The beginnings found so far, carried on over a symbol string until all are full. -/
def extendAll (expand : Nonterminal → Nat → Except Nonterminal LookaheadSet) (limit : Nat)
    (found : LookaheadSet) : List Symbol → Except Nonterminal LookaheadSet
  | [] => .ok found
  | symbol :: rest =>
      if found.strings.all BoundedString.isFull then .ok found
      else do
        let further ← extend expand limit found symbol
        extendAll expand limit further rest

/-- The beginnings of a symbol string within `room` terminals, given those of a single
nonterminal. -/
def ofSymbols (expand : Nonterminal → Nat → Except Nonterminal LookaheadSet) (room : Nat)
    (symbols : List Symbol) : Except Nonterminal LookaheadSet :=
  extendAll expand room (LookaheadSet.endOfInput room) symbols

/-- The beginnings of a nonterminal within `room` terminals, through at most `depth`
nested expansions. -/
def expand (grammar : Grammar) : Nat → Nonterminal → Nat → Except Nonterminal LookaheadSet
  | 0, nonterminal, _ => .error nonterminal
  | depth + 1, nonterminal, room => do
      let sets ← (grammar.rulesFor nonterminal).mapM fun rule =>
        ofSymbols (expand grammar depth) room rule.right
      return sets.foldr LookaheadSet.union LookaheadSet.empty

/-- Enough nested expansions for `room` terminals without left recursion. -/
def depth (grammar : Grammar) (room : Nat) : Nat :=
  room * grammar.nonterminals.size + 1

end First

/-- FIRST of a symbol string. The error is a nonterminal met again with nothing consumed
since; a grammar without left recursion has none. -/
def Grammar.first (grammar : Grammar) (symbols : List Symbol) (length : Nat) :
    Except Nonterminal LookaheadSet :=
  First.ofSymbols (First.expand grammar (First.depth grammar length)) length symbols

end Predictive
