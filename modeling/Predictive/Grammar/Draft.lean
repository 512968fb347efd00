import Predictive.Grammar.LeftRecursion

/-!
Contract: a grammar under construction, fed by events and checked when it is finished.

Owns: symbols as written and as resolved, the events, the draft, the checks in the
order in which they are reported, and the numbering of symbols.
Does not own: where events come from.

A symbol's kind is fixed when its event arrives: it is a terminal if it is written as a
literal or was declared before. An alternative is held until the next accepted rule,
which gives it a left side; alternatives leave in the reverse of the order in which they
came.
-/

namespace Predictive

/-- A symbol as written: a literal is always a terminal, a name is one if declared. -/
inductive WrittenSymbol where
  | name (text : String)
  | literal (text : String)
deriving DecidableEq, Repr

namespace WrittenSymbol

def text : WrittenSymbol → String
  | .name text => text
  | .literal text => text

def isLiteral : WrittenSymbol → Bool
  | .name _ => false
  | .literal _ => true

end WrittenSymbol

/-- A symbol whose kind is known but which has no number yet. -/
inductive NamedSymbol where
  | terminal (name : String)
  | nonterminal (name : String)
deriving DecidableEq, Repr

namespace NamedSymbol

def name : NamedSymbol → String
  | .terminal name => name
  | .nonterminal name => name

def terminalName? : NamedSymbol → Option String
  | .terminal name => some name
  | .nonterminal _ => none

def nonterminalName? : NamedSymbol → Option String
  | .terminal _ => none
  | .nonterminal name => some name

end NamedSymbol

structure NamedRule where
  left : String
  right : List NamedSymbol
deriving DecidableEq, Repr

/-- What two rules must not share: the names, whatever the kinds. -/
def NamedRule.shape (rule : NamedRule) : String × List String :=
  (rule.left, rule.right.map NamedSymbol.name)

inductive GrammarError where
  | unattachedAlternatives (count : Nat)
  | noRules
  | terminalOnLeft (name : String)
  | duplicateRule (left : String)
  | missingRule (name : String)
  | leftRecursive (name : String)
deriving DecidableEq, Repr

def GrammarError.message : GrammarError → String
  | .unattachedAlternatives count =>
      s!"{count} alternative(s) never attached to a left-hand side"
  | .noRules => "grammar has no rules"
  | .terminalOnLeft name => s!"rule with terminal `{name}` on the left side"
  | .duplicateRule left => s!"duplicate rules for `{left}`"
  | .missingRule name => s!"no rule for nonterminal `{name}`"
  | .leftRecursive name => s!"left recursion through `{name}`"

/-- One step of a grammar's construction. -/
inductive Event where
  | terminals (names : List String)
  | alternative (right : List WrittenSymbol)
  | rule (left : WrittenSymbol) (right : List WrittenSymbol)
deriving DecidableEq, Repr

/-- Numbers the symbols of named rules in the order of first appearance, left side before
right side, terminals and nonterminals apart. -/
def Grammar.ofNamedRules (rules : List NamedRule) : Grammar :=
  let terminals := SymbolTable.ofList
    (rules.flatMap fun rule => rule.right.filterMap NamedSymbol.terminalName?)
  let nonterminals := SymbolTable.ofList
    (rules.flatMap fun rule => rule.left :: rule.right.filterMap NamedSymbol.nonterminalName?)
  let symbol : NamedSymbol → Symbol
    | .terminal name => .terminal (terminals.index name)
    | .nonterminal name => .nonterminal (nonterminals.index name)
  { terminals
    nonterminals
    rules := rules.zipIdx.map fun (rule, index) =>
      ⟨index + 1, nonterminals.index rule.left, rule.right.map symbol⟩ }

structure Draft where
  declared : List String
  rules : List NamedRule
  /-- Alternatives without a left side, the latest first. -/
  held : List (List NamedSymbol)
deriving DecidableEq, Repr

namespace Draft

def empty : Draft := ⟨[], [], []⟩

def resolve (draft : Draft) : WrittenSymbol → NamedSymbol
  | .literal text => .terminal text
  | .name text => if text ∈ draft.declared then .terminal text else .nonterminal text

def declare (draft : Draft) (names : List String) : Draft :=
  { draft with declared := draft.declared ++ names }

def hold (draft : Draft) (right : List WrittenSymbol) : Draft :=
  { draft with held := right.map draft.resolve :: draft.held }

/-- Adds a rule, then every held alternative with the same left side. -/
def addRule (draft : Draft) (left : WrittenSymbol) (right : List WrittenSymbol) :
    Except GrammarError Draft :=
  match draft.resolve left with
  | .terminal name => .error (.terminalOnLeft name)
  | .nonterminal name =>
      .ok { draft with
        rules := draft.rules
          ++ ⟨name, right.map draft.resolve⟩ :: draft.held.map (⟨name, ·⟩)
        held := [] }

def apply (draft : Draft) : Event → Except GrammarError Draft
  | .terminals names => .ok (draft.declare names)
  | .alternative right => .ok (draft.hold right)
  | .rule left right => draft.addRule left right

/-- Applies events up to the first that fails. -/
def applyAll (draft : Draft) (events : List Event) : Except GrammarError Draft :=
  events.foldlM apply draft

/-- Applies every event; one that fails leaves the draft as it is. -/
def applyEach (draft : Draft) (events : List Event) : Draft :=
  events.foldl (fun draft event => (draft.apply event).toOption.getD draft) draft

/-- The first rule whose shape is among those seen before it. -/
def firstRepeat (seen : List (String × List String)) : List NamedRule → Option NamedRule
  | [] => none
  | rule :: rest =>
      if rule.shape ∈ seen then some rule else firstRepeat (rule.shape :: seen) rest

/-- The first nonterminal on a right side that no rule has on its left. -/
def firstMissing (rules : List NamedRule) : Option String :=
  (rules.flatMap fun rule => rule.right.filterMap NamedSymbol.nonterminalName?).find?
    fun name => !(rules.any fun rule => rule.left == name)

/-- Checks the draft and numbers its symbols. -/
def finish (draft : Draft) : Except GrammarError Grammar :=
  if draft.held ≠ [] then .error (.unattachedAlternatives draft.held.length)
  else if draft.rules = [] then .error .noRules
  else match firstRepeat [] draft.rules with
    | some rule => .error (.duplicateRule rule.left)
    | none => match firstMissing draft.rules with
      | some name => .error (.missingRule name)
      | none =>
          let grammar := Grammar.ofNamedRules draft.rules
          match grammar.leftRecursive? with
          | some nonterminal => .error (.leftRecursive (grammar.nonterminalName nonterminal))
          | none => .ok grammar

end Draft

/-- The grammar that a list of events describes. -/
def Grammar.ofEvents (events : List Event) : Except GrammarError Grammar := do
  let draft ← Draft.empty.applyAll events
  draft.finish

end Predictive
