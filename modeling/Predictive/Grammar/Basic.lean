import Predictive.SymbolTable

/-!
Contract: context-free grammars over numbered symbols, with numbered rules.

Owns: symbols, rules, the grammar record, its lookups by number and by name, and the
one-line text of a rule.
Does not own: how a grammar comes about, or what makes it fit for tables.

Any record is a grammar here. `Draft.finish` hands out those that satisfy the checks,
and states them.
-/

namespace Predictive

/-- Number of a terminal, from 0. -/
abbrev Terminal := Nat

/-- Number of a nonterminal, from 0. -/
abbrev Nonterminal := Nat

inductive Symbol where
  | terminal (number : Terminal)
  | nonterminal (number : Nonterminal)
deriving DecidableEq, Repr

namespace Symbol

def isTerminal : Symbol → Bool
  | .terminal _ => true
  | .nonterminal _ => false

def nonterminal? : Symbol → Option Nonterminal
  | .terminal _ => none
  | .nonterminal number => some number

end Symbol

structure Rule where
  /-- Place among the rules of its grammar, from 1. -/
  number : Nat
  left : Nonterminal
  right : List Symbol
deriving DecidableEq, Repr

/-- The nonterminal occurrences of a right side, in order. -/
def Rule.occurrences (rule : Rule) : List Nonterminal :=
  rule.right.filterMap Symbol.nonterminal?

structure UnknownTerminal where
  name : String
deriving DecidableEq, Repr

def UnknownTerminal.message (unknown : UnknownTerminal) : String :=
  s!"unknown terminal `{unknown.name}`"

structure Grammar where
  terminals : SymbolTable
  nonterminals : SymbolTable
  rules : List Rule
deriving DecidableEq, Repr

namespace Grammar

/-- The left side of the first rule. -/
def start (grammar : Grammar) : Nonterminal :=
  match grammar.rules with
  | [] => 0
  | rule :: _ => rule.left

/-- The rule with a number, counted from 1. -/
def rule? (grammar : Grammar) : Nat → Option Rule
  | 0 => none
  | index + 1 => grammar.rules[index]?

/-- The rules of a nonterminal, in order; none for a number the grammar never gave out. -/
def rulesFor (grammar : Grammar) (left : Nonterminal) : List Rule :=
  grammar.rules.filter fun rule => rule.left == left

def terminalName (grammar : Grammar) (terminal : Terminal) : String :=
  (grammar.terminals.name? terminal).getD "?"

def nonterminalName (grammar : Grammar) (nonterminal : Nonterminal) : String :=
  (grammar.nonterminals.name? nonterminal).getD "?"

def symbolName (grammar : Grammar) : Symbol → String
  | .terminal number => grammar.terminalName number
  | .nonterminal number => grammar.nonterminalName number

/-- Numbers of terminals given by name; the first name without one is reported. -/
def tokenize (grammar : Grammar) (names : List String) :
    Except UnknownTerminal (List Terminal) :=
  names.mapM fun name =>
    match grammar.terminals.index? name with
    | some number => .ok number
    | none => .error ⟨name⟩

/-- A right side in words, `ε` when it is empty. -/
def rightText (grammar : Grammar) (right : List Symbol) : String :=
  if right.isEmpty then "ε" else " ".intercalate (right.map grammar.symbolName)

def ruleText (grammar : Grammar) (rule : Rule) : String :=
  s!"{rule.number}: {grammar.nonterminalName rule.left} -> {grammar.rightText rule.right}"

end Grammar

end Predictive
