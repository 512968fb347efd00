import Predictive.Run.Window
import Predictive.Run.Buffered

/-!
Contract: the words for failed runs.

Owns: the text of a failure, given names for rows and lookaheads.
Does not own: when a run fails.
-/

namespace Predictive

def ParseFailure.message {Row Lookahead : Type} (rowName : Row → String)
    (lookaheadText : Lookahead → String) : ParseFailure Row Lookahead → String
  | .noAction row lookahead position =>
      s!"no action for `{rowName row}` with lookahead `{lookaheadText lookahead}` "
        ++ s!"at input position {position}"
  | .ambiguous row lookahead =>
      s!"conflicting actions for `{rowName row}` with lookahead `{lookaheadText lookahead}`"
  | .unfinished => "parse did not finish"

namespace Grammar

/-- The text of a failure of the lookahead table. -/
def windowFailureText (grammar : Grammar) :
    ParseFailure StackSymbol (List Terminal) → String :=
  ParseFailure.message (StackSymbol.name grammar) grammar.lookaheadText

/-- The text of a failure of the buffered table. -/
def bufferedFailureText (grammar : Grammar) :
    ParseFailure BufferedRow (List BufferSymbol) → String :=
  ParseFailure.message (BufferedRow.name grammar) grammar.bufferText

end Grammar

end Predictive
