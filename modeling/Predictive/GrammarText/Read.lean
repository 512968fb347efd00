import Predictive.GrammarText.Written

/-!
Contract: from the text of a grammar to the grammar.

Owns: the order of the stages and the kinds of error they leave.
Does not own: the stages themselves.
-/

namespace Predictive

inductive ReadError where
  | text (error : GrammarText.TextError)
  | grammar (error : GrammarError)
deriving DecidableEq, Repr

def ReadError.message : ReadError → String
  | .text error => error.message
  | .grammar error => error.message

namespace GrammarText

/-- Tokens, then the written grammar; an unrecognized stretch anywhere comes first. -/
def parse (text : String) : Except TextError WrittenGrammar := do
  let tokenized ← tokenize text
  WrittenGrammar.ofTokens tokenized

end GrammarText

def Grammar.ofText (text : String) : Except ReadError Grammar :=
  match GrammarText.parse text with
  | .error error => .error (.text error)
  | .ok written =>
      match Grammar.ofEvents written.events with
      | .error error => .error (.grammar error)
      | .ok grammar => .ok grammar

end Predictive
