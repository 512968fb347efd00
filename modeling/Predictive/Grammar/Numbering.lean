import Predictive.Grammar.Draft

/-!
Contract: named rules numbered in one pass, and numbered rules filed by their left sides.

Owns: the pass that gives every symbol its number where it is met, the file of the rules by
left side, and names for numbered symbols and rules.
Does not own: the grammar that a draft hands out. There all numbers are taken from finished
tables and the rules of a nonterminal are looked up among all rules; the two ways agree.
-/

namespace Predictive

/-- The symbol tables as far as a pass has filled them. -/
structure Numbering where
  terminals : SymbolTable
  nonterminals : SymbolTable
deriving DecidableEq, Repr

namespace Numbering

def empty : Numbering := ⟨SymbolTable.empty, SymbolTable.empty⟩

/-- The number of a symbol, a new one if it is met for the first time. -/
def symbol (tables : Numbering) : NamedSymbol → Symbol × Numbering
  | .terminal name =>
      let terminals := tables.terminals.add name
      (.terminal (terminals.index name), { tables with terminals })
  | .nonterminal name =>
      let nonterminals := tables.nonterminals.add name
      (.nonterminal (nonterminals.index name), { tables with nonterminals })

def symbols (tables : Numbering) : List NamedSymbol → List Symbol × Numbering
  | [] => ([], tables)
  | first :: rest =>
      let (number, next) := tables.symbol first
      let (numbers, last) := next.symbols rest
      (number :: numbers, last)

/-- A rule at a place, its left side numbered before its right side. -/
def rule (tables : Numbering) (number : Nat) (named : NamedRule) : Rule × Numbering :=
  let nonterminals := tables.nonterminals.add named.left
  let (right, last) := symbols { tables with nonterminals } named.right
  (⟨number, nonterminals.index named.left, right⟩, last)

/-- Rules from a place on. -/
def rules (tables : Numbering) : Nat → List NamedRule → List Rule × Numbering
  | _, [] => ([], tables)
  | number, first :: rest =>
      let (numbered, next) := tables.rule number first
      let (others, last) := next.rules (number + 1) rest
      (numbered :: others, last)

end Numbering

namespace Grammar

/-- The grammar of named rules, each symbol numbered where it is met. -/
def ofPass (named : List NamedRule) : Grammar :=
  let (rules, tables) := Numbering.empty.rules 1 named
  ⟨tables.terminals, tables.nonterminals, rules⟩

/-- The places of the rules, from 0, filed under their left sides. -/
def filed (grammar : Grammar) : Array (List Nat) :=
  grammar.rules.zipIdx.foldl
    (fun file (rule, place) => file.modify rule.left fun places => places ++ [place])
    (Array.replicate grammar.nonterminals.size [])

/-- The rules that are filed under a nonterminal; none for a number the grammar never gave
out. -/
def filedRules (grammar : Grammar) (left : Nonterminal) : List Rule :=
  match grammar.filed[left]? with
  | some places => places.filterMap fun place => grammar.rules[place]?
  | none => []

/-- A numbered symbol by its name, of the same kind. -/
def nameSymbol (grammar : Grammar) (symbol : Symbol) : NamedSymbol :=
  if symbol.isTerminal then .terminal (grammar.symbolName symbol)
  else .nonterminal (grammar.symbolName symbol)

/-- A numbered rule by the names of its symbols. -/
def nameRule (grammar : Grammar) (rule : Rule) : NamedRule :=
  ⟨grammar.nonterminalName rule.left, rule.right.map grammar.nameSymbol⟩

end Grammar

end Predictive
