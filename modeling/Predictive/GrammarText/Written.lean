import Predictive.Grammar.Draft
import Predictive.GrammarText.Lexeme

/-!
Contract: grammars as they are written, and how tokens are read as one.

Owns: the written grammar, the reader of token sequences with its errors, and the events
that build the grammar.
Does not own: the meaning of names, which the draft settles, and the expression for a grammar over
parser combinators, which reads the same.

The reader moves from phase to phase. From every phase a complete grammar can still be
reached, so the first token without a next phase is the first at which no continuation
is left.
-/

namespace Predictive.GrammarText

structure WrittenRule where
  left : String
  /-- At least one; an alternative may be empty. -/
  alternatives : List (List WrittenSymbol)
deriving DecidableEq, Repr

structure WrittenGrammar where
  /-- The declared terminals, in order. -/
  declared : List String
  rules : List WrittenRule
deriving DecidableEq, Repr

def Token.symbol? : Token → Option WrittenSymbol
  | .name text => some (.name text)
  | .literal text => some (.literal text)
  | _ => none

/-- What has been read. -/
inductive Phase where
  /-- Nothing. -/
  | opening
  /-- A declaration without a symbol yet. -/
  | declaring (declared : List String)
  /-- Declarations, the last of which can go on. -/
  | listing (declared : List String)
  /-- Declarations and complete rules. -/
  | betweenRules (done : WrittenGrammar)
  /-- The left side of a rule. -/
  | afterLeft (done : WrittenGrammar) (left : String)
  /-- A rule up to some place in its last alternative. -/
  | inRule (done : WrittenGrammar) (left : String) (complete : List (List WrittenSymbol))
      (current : List WrittenSymbol)
deriving DecidableEq, Repr

namespace Phase

def next : Phase → Token → Option Phase
  | .opening, .declare => some (.declaring [])
  | .opening, .split => some (.betweenRules ⟨[], []⟩)
  | .opening, _ => none
  | .declaring declared, token =>
      token.symbol?.map fun symbol => .listing (declared ++ [symbol.text])
  | .listing declared, .declare => some (.declaring declared)
  | .listing declared, .split => some (.betweenRules ⟨declared, []⟩)
  | .listing declared, token =>
      token.symbol?.map fun symbol => .listing (declared ++ [symbol.text])
  | .betweenRules done, .name left => some (.afterLeft done left)
  | .betweenRules _, _ => none
  | .afterLeft done left, .colon => some (.inRule done left [] [])
  | .afterLeft _ _, _ => none
  | .inRule done left complete current, .bar =>
      some (.inRule done left (complete ++ [current]) [])
  | .inRule done left complete current, .semicolon =>
      some (.betweenRules { done with
        rules := done.rules ++ [⟨left, complete ++ [current]⟩] })
  | .inRule done left complete current, token =>
      token.symbol?.map fun symbol => .inRule done left complete (current ++ [symbol])

/-- The grammar, where the text may end. -/
def finished? : Phase → Option WrittenGrammar
  | .betweenRules done => some done
  | _ => none

end Phase

/-- Reads tokens on from a phase. -/
def readFrom (lastLine : Nat) : Phase → List LocatedToken → Except TextError WrittenGrammar
  | phase, [] =>
      match phase.finished? with
      | some grammar => .ok grammar
      | none => .error (.unexpected lastLine none)
  | phase, located :: rest =>
      match phase.next located.token with
      | some phase => readFrom lastLine phase rest
      | none => .error (.unexpected located.line (some located.token))

namespace WrittenGrammar

def ofTokens (tokenized : Tokenized) : Except TextError WrittenGrammar :=
  readFrom tokenized.lastLine .opening tokenized.tokens

/-- The alternatives of a rule as events: the later ones, last first, are held until the
first one arrives with the left side. -/
def ruleEvents (rule : WrittenRule) : List Event :=
  match rule.alternatives with
  | [] => [.rule (.name rule.left) []]
  | first :: later => later.reverse.map .alternative ++ [.rule (.name rule.left) first]

def events (grammar : WrittenGrammar) : List Event :=
  .terminals grammar.declared :: grammar.rules.flatMap ruleEvents

end WrittenGrammar

end Predictive.GrammarText
