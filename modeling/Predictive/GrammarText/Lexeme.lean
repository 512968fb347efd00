import Predictive.Text.Quoted
import Predictive.GrammarText.Token

/-!
Contract: the tokens of a text with the lines on which they stand.

Owns: line counting, the sequence of tokens and unrecognized stretches, and the errors
of grammar text.
Does not own: how tokens are recognized, and which sequences of them make sense.

A scanner goes through a text from lexeme to lexeme and counts lines from 1, one more for
each newline piece that it passes.
-/

namespace Predictive.GrammarText

/-- What scanning a text meets, blanks, comments and ends of lines left out. -/
inductive Lexeme where
  | token (line : Nat) (token : Token)
  | unrecognized (line : Nat) (text : String)
deriving DecidableEq, Repr

def Lexeme.line : Lexeme → Nat
  | .token line _ => line
  | .unrecognized line _ => line

inductive TextError where
  | unrecognized (line : Nat) (text : String)
  /-- The token that cannot stand where it does, or none for the end of the text. -/
  | unexpected (line : Nat) (found : Option Token)
deriving DecidableEq, Repr

def TextError.line : TextError → Nat
  | .unrecognized line _ => line
  | .unexpected line _ => line

def TextError.message : TextError → String
  | .unrecognized line text => s!"line {line}: unrecognized input " ++ Text.quoted text
  | .unexpected line (some token) => s!"line {line}: unexpected `{token.text}`"
  | .unexpected line none => s!"line {line}: unexpected end of input"

/-- A place in a text: the line on which it is, and the text from there on. -/
structure Scanner where
  line : Nat
  rest : List Char
deriving DecidableEq, Repr

/-- The beginning of a text. -/
def Scanner.start (text : String) : Scanner := ⟨1, text.toList⟩

/-- The first lexeme from a place on, if there is one, and the place behind it. Blanks,
comments and ends of lines in front of it are passed over. -/
def Scanner.next (scanner : Scanner) : Option Lexeme × Scanner :=
  match scanner with
  | ⟨line, []⟩ => (none, ⟨line, []⟩)
  | ⟨line, first :: rest⟩ =>
      let left := (firstPiece first rest).2
      match (firstPiece first rest).1 with
      | .blanks _ => next ⟨line, left⟩
      | .newline => next ⟨line + 1, left⟩
      | .comment _ => next ⟨line, left⟩
      | .token token _ => (some (.token line token), ⟨line, left⟩)
      | .unrecognized spelling =>
          (some (.unrecognized line (String.ofList spelling)), ⟨line, left⟩)
termination_by scanner.rest.length
decreasing_by all_goals exact length_firstPiece_lt first rest

/-- A text gets shorter when a lexeme is taken from it. -/
theorem Scanner.length_next_lt {scanner later : Scanner} {lexeme : Lexeme}
    (found : scanner.next = (some lexeme, later)) : later.rest.length < scanner.rest.length := by
  fun_induction Scanner.next scanner with
  | case1 line => simp at found
  | case2 line first rest left spelling piece inductionHypothesis =>
      exact Nat.lt_trans (inductionHypothesis found) (length_firstPiece_lt first rest)
  | case3 line first rest left piece inductionHypothesis =>
      exact Nat.lt_trans (inductionHypothesis found) (length_firstPiece_lt first rest)
  | case4 line first rest left spelling piece inductionHypothesis =>
      exact Nat.lt_trans (inductionHypothesis found) (length_firstPiece_lt first rest)
  | case5 line first rest left token spelling piece =>
      cases found
      exact length_firstPiece_lt first rest
  | case6 line first rest left spelling piece =>
      cases found
      exact length_firstPiece_lt first rest

/-- The lexemes from a place on, going on after what is not recognized, and the place where
the text ends. -/
def Scanner.scan (scanner : Scanner) : List Lexeme × Scanner :=
  match _ : scanner.next with
  | (none, stop) => ([], stop)
  | (some lexeme, later) =>
      let (lexemes, stop) := later.scan
      (lexeme :: lexemes, stop)
termination_by scanner.rest.length
decreasing_by exact length_next_lt ‹_›

/-- The lexemes of a text, going on after what is not recognized. -/
def lexemes (text : String) : List Lexeme := (Scanner.start text).scan.1

/-- The line on which a text ends. -/
def lastLine (text : String) : Nat := (Scanner.start text).scan.2.line

structure LocatedToken where
  token : Token
  line : Nat
deriving DecidableEq, Repr

/-- The tokens of a text that is recognized throughout. -/
structure Tokenized where
  tokens : List LocatedToken
  lastLine : Nat
deriving DecidableEq, Repr

/-- The line of a token given by its place, or of the end of the text past the last. -/
def Tokenized.lineOf (tokenized : Tokenized) (place : Nat) : Nat :=
  match tokenized.tokens[place]? with
  | some located => located.line
  | none => tokenized.lastLine

/-- The tokens from a place on, unless something there is not recognized. -/
def Scanner.tokenize (scanner : Scanner) : Except TextError Tokenized :=
  match _ : scanner.next with
  | (none, stop) => .ok ⟨[], stop.line⟩
  | (some (.unrecognized line text), _) => .error (.unrecognized line text)
  | (some (.token _ token), later) =>
      match later.tokenize with
      | .error error => .error error
      | .ok behind => .ok { behind with tokens := ⟨token, later.line⟩ :: behind.tokens }
termination_by scanner.rest.length
decreasing_by exact length_next_lt ‹_›

/-- The tokens of a text, unless something in it is not recognized. -/
def tokenize (text : String) : Except TextError Tokenized := (Scanner.start text).tokenize

end Predictive.GrammarText
