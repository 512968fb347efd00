import Predictive.Grammar.Draft

/-!
Contract: a draft that its events change, with what each event reports.

Owns: the feeding of one event and of many, and the loop that takes the held alternatives one
at a time.
Does not own: the draft that a grammar is built from. There an event gives a new draft or an
error and never both; the two ways agree.
-/

namespace Predictive

namespace Draft

/-- Takes the held alternatives from the latest on, and gives each of them the left side. -/
def attachHeld (left : String) : Draft → Draft
  | ⟨declared, rules, []⟩ => ⟨declared, rules, []⟩
  | ⟨declared, rules, right :: earlier⟩ =>
      attachHeld left ⟨declared, rules ++ [⟨left, right⟩], earlier⟩
termination_by draft => draft.held.length

/-- What an event reports, and the draft it leaves. -/
def feed (draft : Draft) : Event → Except GrammarError Unit × Draft
  | .terminals names => (.ok (), draft.declare names)
  | .alternative right => (.ok (), draft.hold right)
  | .rule left right =>
      match draft.resolve left with
      | .terminal name => (.error (.terminalOnLeft name), draft)
      | .nonterminal name =>
          (.ok (), attachHeld name
            { draft with rules := draft.rules ++ [⟨name, right.map draft.resolve⟩] })

/-- Feeds every event, also those behind one that fails. -/
def feedEach (draft : Draft) : List Event → List (Except GrammarError Unit) × Draft
  | [] => ([], draft)
  | event :: rest =>
      let (report, next) := draft.feed event
      let (reports, last) := next.feedEach rest
      (report :: reports, last)

end Draft

end Predictive
