import Predictive.Table.Buffered

/-!
Contract: runs of a pushdown machine, as data.

Owns: moves, failures, the record of a run, and the left parse that a run's moves spell.
Does not own: how a machine chooses its moves.

A run records every configuration it leaves together with the move it makes there. What
a run answers and what it logs are both read off that record.
-/

namespace Predictive

inductive Move where
  | expand (rule : Nat)
  | pop
  | change (buffer : List BufferSymbol)
deriving DecidableEq, Repr

/-- Why a machine stops without accepting. A run that is `unfinished` has used up its
steps or its pushdown. -/
inductive ParseFailure (Row Lookahead : Type) where
  | noAction (row : Row) (lookahead : Lookahead) (position : Nat)
  | ambiguous (row : Row) (lookahead : Lookahead)
  | unfinished
deriving DecidableEq, Repr

/-- What a machine does in a configuration. -/
inductive Step (Configuration Row Lookahead : Type) where
  | moved (move : Move) (next : Configuration)
  | accepted
  | failed (failure : ParseFailure Row Lookahead)

structure Run (Configuration Row Lookahead : Type) where
  /-- The configurations left, each with the move made there. -/
  moves : List (Configuration × Move)
  last : Configuration
  /-- Absent when the run accepts. -/
  failure : Option (ParseFailure Row Lookahead)

/-- The rules of a leftmost derivation in order, and how many moves of each kind it
took to find them. -/
structure LeftParse where
  rules : List Nat
  expansions : Nat
  pops : Nat
  changes : Nat
deriving DecidableEq, Repr

namespace Move

def rule? : Move → Option Nat
  | .expand rule => some rule
  | _ => none

def isPop : Move → Bool
  | .pop => true
  | _ => false

def isChange : Move → Bool
  | .change _ => true
  | _ => false

end Move

def LeftParse.ofMoves (moves : List Move) : LeftParse where
  rules := moves.filterMap Move.rule?
  expansions := moves.countP fun move => move.rule?.isSome
  pops := moves.countP Move.isPop
  changes := moves.countP Move.isChange

namespace Run

variable {Configuration Row Lookahead : Type}

/-- Steps from a configuration, at most so many times. -/
def iterate (step : Configuration → Step Configuration Row Lookahead) :
    Nat → Configuration → Run Configuration Row Lookahead
  | 0, configuration => ⟨[], configuration, some .unfinished⟩
  | steps + 1, configuration =>
      match step configuration with
      | .accepted => ⟨[], configuration, none⟩
      | .failed failure => ⟨[], configuration, some failure⟩
      | .moved move next =>
          let rest := iterate step steps next
          ⟨(configuration, move) :: rest.moves, rest.last, rest.failure⟩

/-- The left parse of an accepting run. -/
def result (run : Run Configuration Row Lookahead) :
    Except (ParseFailure Row Lookahead) LeftParse :=
  match run.failure with
  | none => .ok (LeftParse.ofMoves (run.moves.map Prod.snd))
  | some failure => .error failure

end Run

namespace Grammar

/-- Length of the longest right side. -/
def widest (grammar : Grammar) : Nat :=
  (grammar.rules.map fun rule => rule.right.length).foldl max 0

/-- Steps that a run over `inputs` terminals cannot use up in a grammar without left
recursion. Erasing a nonterminal takes at most `(widest + 1) ^ nonterminals` expansions,
since its left corners have lower rank. Between two terminals at most one expansion per
rank leads on to the next terminal, and each of them leaves at most `widest` symbols
that may be erased later. -/
def stepBound (grammar : Grammar) (inputs : Nat) : Nat :=
  (inputs + 2) * (grammar.nonterminals.size + 2)
    * Nat.pow (grammar.widest + 2) (grammar.nonterminals.size + 1)

end Grammar

end Predictive
