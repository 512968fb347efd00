import Mathlib.Data.List.Basic
import Predictive.Grammar.Feeding

/-!
Contract: what any run of events leaves in a draft, told by the events alone.

Owns: what a place among the events declares, adds and leaves waiting, the loop over the held
alternatives, and the step and the run of a draft that its events change.
Does not own: which drafts can be finished.

The events are fixed and places in them move: `draftAt` says for every place what the events
before it leave. One event takes the draft from its place to the next (`feed_draftAt`), and by
that a run reaches `draftAt` at every place (`feedEach_take`).
-/

namespace Predictive

/-! ### Kinds of symbols -/

namespace WrittenSymbol

/-- Whether a symbol is a terminal where some names are declared. -/
def IsTerminalUnder (declared : List String) (symbol : WrittenSymbol) : Prop :=
  symbol.isLiteral ∨ symbol.text ∈ declared

instance (declared : List String) (symbol : WrittenSymbol) :
    Decidable (symbol.IsTerminalUnder declared) :=
  inferInstanceAs (Decidable (_ ∨ _))

/-- The symbol with its kind where some names are declared. -/
def namedUnder (declared : List String) (symbol : WrittenSymbol) : NamedSymbol :=
  if symbol.IsTerminalUnder declared then .terminal symbol.text else .nonterminal symbol.text

theorem isTerminalUnder_name_iff {declared : List String} {text : String} :
    (name text).IsTerminalUnder declared ↔ text ∈ declared := by
  simp [IsTerminalUnder, isLiteral, WrittenSymbol.text]

end WrittenSymbol

def Event.declares : Event → List String
  | .terminals names => names
  | .alternative _ => []
  | .rule _ _ => []

namespace Draft

theorem resolve_eq (draft : Draft) (symbol : WrittenSymbol) :
    draft.resolve symbol = symbol.namedUnder draft.declared := by
  cases symbol with
  | literal text => simp [resolve, WrittenSymbol.namedUnder, WrittenSymbol.IsTerminalUnder,
      WrittenSymbol.isLiteral, WrittenSymbol.text]
  | name text => simp [resolve, WrittenSymbol.namedUnder, WrittenSymbol.IsTerminalUnder,
      WrittenSymbol.isLiteral, WrittenSymbol.text]

theorem map_resolve (draft : Draft) (symbols : List WrittenSymbol) :
    symbols.map draft.resolve = symbols.map (·.namedUnder draft.declared) := by
  apply List.map_congr_left
  intro symbol _
  exact draft.resolve_eq symbol

/-! ### One event -/

theorem apply_rule_of_isTerminal (draft : Draft) {left : WrittenSymbol}
    (terminal : left.IsTerminalUnder draft.declared) (right : List WrittenSymbol) :
    draft.apply (.rule left right) = .error (.terminalOnLeft left.text) := by
  have resolved : draft.resolve left = .terminal left.text := by
    rw [resolve_eq, WrittenSymbol.namedUnder, if_pos terminal]
  simp only [apply, addRule, resolved]

theorem apply_rule_of_not_isTerminal (draft : Draft) {left : WrittenSymbol}
    (nonterminal : ¬ left.IsTerminalUnder draft.declared) (right : List WrittenSymbol) :
    draft.apply (.rule left right) = .ok ⟨draft.declared,
      draft.rules ++ ⟨left.text, right.map (·.namedUnder draft.declared)⟩
        :: draft.held.map (⟨left.text, ·⟩), []⟩ := by
  have resolved : draft.resolve left = .nonterminal left.text := by
    rw [resolve_eq, WrittenSymbol.namedUnder, if_neg nonterminal]
  simp only [apply, addRule, resolved, map_resolve]

theorem attachHeld_eq (left : String) (draft : Draft) : attachHeld left draft =
    ⟨draft.declared, draft.rules ++ draft.held.map (⟨left, ·⟩), []⟩ := by
  fun_induction attachHeld left draft with
  | case1 declared rules => simp
  | case2 declared rules right earlier inductionHypothesis => simp [inductionHypothesis]

/-- An event that changes a draft does what it does to a new one; where it fails nothing
changes. -/
theorem feed_eq (draft : Draft) (event : Event) : draft.feed event =
    match draft.apply event with
    | .ok next => (.ok (), next)
    | .error error => (.error error, draft) := by
  cases event with
  | terminals names => rfl
  | alternative right => rfl
  | rule left right =>
      simp only [feed, apply, addRule]
      cases draft.resolve left with
      | terminal name => rfl
      | nonterminal name =>
          show (Except.ok (), attachHeld name _) = (Except.ok (), _)
          rw [attachHeld_eq, List.append_assoc, List.singleton_append]

theorem feed_of_ok {draft next : Draft} {event : Event} (applied : draft.apply event = .ok next) :
    draft.feed event = (.ok (), next) := by
  rw [feed_eq, applied]

theorem feed_of_error {draft : Draft} {event : Event} {error : GrammarError}
    (failed : draft.apply event = .error error) : draft.feed event = (.error error, draft) := by
  rw [feed_eq, failed]

theorem feed_unchanged {draft : Draft} {event : Event} {error : GrammarError}
    (failed : (draft.feed event).1 = .error error) : (draft.feed event).2 = draft := by
  cases outcome : draft.apply event with
  | ok next =>
      rw [feed_of_ok outcome] at failed
      exact absurd failed (by simp)
  | error error => rw [feed_of_error outcome]

/-! ### Many events -/

theorem applyAll_singleton (draft : Draft) (event : Event) :
    draft.applyAll [event] = draft.apply event := by
  simp [applyAll]

theorem applyAll_append (draft : Draft) (front back : List Event) :
    draft.applyAll (front ++ back) = (draft.applyAll front).bind (·.applyAll back) := by
  unfold applyAll
  rw [List.foldlM_append]
  rfl

theorem feedEach_append (draft : Draft) (front back : List Event) :
    draft.feedEach (front ++ back) =
      ((draft.feedEach front).1 ++ ((draft.feedEach front).2.feedEach back).1,
        ((draft.feedEach front).2.feedEach back).2) := by
  induction front generalizing draft with
  | nil => rfl
  | cons event front inductionHypothesis =>
      simp only [List.cons_append, feedEach, inductionHypothesis]

theorem length_feedEach (draft : Draft) (events : List Event) :
    (draft.feedEach events).1.length = events.length := by
  induction events generalizing draft with
  | nil => rfl
  | cons event rest inductionHypothesis =>
      simp only [feedEach, List.length_cons, inductionHypothesis]

/-- Every event meets the draft that the events before it leave. -/
theorem report_feedEach (draft : Draft) (events : List Event) (place : Nat) :
    (draft.feedEach events).1[place]? =
      events[place]?.map fun event => ((draft.feedEach (events.take place)).2.feed event).1 := by
  induction events generalizing draft place with
  | nil => simp [feedEach]
  | cons event rest inductionHypothesis =>
      cases place with
      | zero => rfl
      | succ place => exact inductionHypothesis (draft.feed event).2 place

theorem feedEach_eq_applyEach (draft : Draft) (events : List Event) :
    (draft.feedEach events).2 = draft.applyEach events := by
  induction events generalizing draft with
  | nil => rfl
  | cons event rest inductionHypothesis =>
      show ((draft.feed event).2.feedEach rest).2 =
        ((draft.apply event).toOption.getD draft).applyEach rest
      rw [inductionHypothesis, feed_eq]
      cases draft.apply event <;> rfl

/-! ### Places among the events -/

section Places

variable (events : List Event) (place : Nat)

/-- The names that the events before a place declare. -/
def declaredBefore : List String :=
  (events.take place).flatMap Event.declares

/-- The rule that arrives at a place, if its left side is no terminal by then. -/
def acceptedAt? : Option NamedRule :=
  match events[place]? with
  | some (.rule left right) =>
      if left.IsTerminalUnder (declaredBefore events place) then none
      else some ⟨left.text, right.map (·.namedUnder (declaredBefore events place))⟩
  | _ => none

/-- The alternative that arrives at a place. -/
def alternativeAt? : Option (List NamedSymbol) :=
  match events[place]? with
  | some (.alternative right) => some (right.map (·.namedUnder (declaredBefore events place)))
  | _ => none

/-- The alternatives from before a place with no accepted rule between them and the place, in
the order in which they arrived. -/
def waitingAt : List (List NamedSymbol) :=
  ((List.range place).filter fun arrival =>
    ∀ between < place, arrival < between → acceptedAt? events between = none).filterMap
      (alternativeAt? events)

/-- The rules that a place adds: the one it accepts, then what waits for it, the latest first. -/
def rulesAt : List NamedRule :=
  match acceptedAt? events place with
  | none => []
  | some rule => rule :: (waitingAt events place).reverse.map (⟨rule.left, ·⟩)

/-- The right side that a place delivers, as a rule of its own or as an alternative. -/
def deliveredAt? : Option (List NamedSymbol) :=
  match acceptedAt? events place with
  | none => alternativeAt? events place
  | some rule => some rule.right

/-- What the events before a place leave. -/
def draftAt : Draft where
  declared := declaredBefore events place
  rules := (List.range place).flatMap (rulesAt events)
  held := (waitingAt events place).reverse

end Places

section Step

variable {events : List Event} {place : Nat}

theorem declaredBefore_succ {event : Event} (found : events[place]? = some event) :
    declaredBefore events (place + 1) = declaredBefore events place ++ event.declares := by
  simp [declaredBefore, List.take_add_one, found]

theorem alternativeAt?_of_accepted {rule : NamedRule}
    (accepted : acceptedAt? events place = some rule) : alternativeAt? events place = none := by
  unfold acceptedAt? at accepted
  unfold alternativeAt?
  split at accepted
  case h_1 left right found => rw [found]
  case h_2 => exact absurd accepted (by simp)

/-- An accepted rule leaves nothing waiting. -/
theorem waitingAt_succ_of_accepted {rule : NamedRule}
    (accepted : acceptedAt? events place = some rule) : waitingAt events (place + 1) = [] := by
  unfold waitingAt
  apply List.filterMap_eq_nil_iff.mpr
  intro arrival member
  obtain ⟨before, unmet⟩ := List.mem_filter.mp member
  have bound : arrival < place + 1 := List.mem_range.mp before
  by_cases here : arrival = place
  · rw [here]
    exact alternativeAt?_of_accepted accepted
  · have missed := of_decide_eq_true unmet place (Nat.lt_succ_self place) (by omega)
    exact absurd (accepted.symm.trans missed) (by simp)

/-- Any other event leaves everything waiting, and an alternative waits behind the others. -/
theorem waitingAt_succ_of_not_accepted (refused : acceptedAt? events place = none) :
    waitingAt events (place + 1) =
      waitingAt events place ++ (alternativeAt? events place).toList := by
  have same : ∀ arrival ∈ List.range place,
      decide (∀ between < place + 1, arrival < between → acceptedAt? events between = none) =
        decide (∀ between < place, arrival < between → acceptedAt? events between = none) := by
    intro arrival _
    apply decide_eq_decide.mpr
    constructor
    · intro unmet between before
      exact unmet between (by omega)
    · intro unmet between before behind
      by_cases here : between = place
      · rw [here, refused]
      · exact unmet between (by omega) behind
  have last : [place].filter (fun arrival =>
      ∀ between < place + 1, arrival < between → acceptedAt? events between = none) = [place] := by
    apply List.filter_eq_self.mpr
    intro arrival here
    rw [List.mem_singleton.mp here]
    apply decide_eq_true
    intro between before behind
    omega
  unfold waitingAt
  rw [List.range_succ, List.filter_append, List.filter_congr same, last, List.filterMap_append]
  cases delivered : alternativeAt? events place <;> simp [delivered]

theorem rulesAt_of_not_accepted (refused : acceptedAt? events place = none) :
    rulesAt events place = [] := by
  rw [rulesAt, refused]

theorem rulesAt_of_accepted {rule : NamedRule}
    (accepted : acceptedAt? events place = some rule) :
    rulesAt events place = rule :: (waitingAt events place).reverse.map (⟨rule.left, ·⟩) := by
  rw [rulesAt, accepted]

theorem rules_draftAt_succ (events : List Event) (place : Nat) :
    (draftAt events (place + 1)).rules = (draftAt events place).rules ++ rulesAt events place := by
  show (List.range (place + 1)).flatMap _ = _
  rw [List.range_succ, List.flatMap_append, List.flatMap_singleton]
  rfl

/-- Where nothing is accepted, an event adds no rule. -/
theorem draftAt_succ_of_not_accepted {event : Event} (found : events[place]? = some event)
    (refused : acceptedAt? events place = none) : draftAt events (place + 1) =
      ⟨declaredBefore events place ++ event.declares, (draftAt events place).rules,
        (alternativeAt? events place).toList ++ (draftAt events place).held⟩ := by
  have waiting := waitingAt_succ_of_not_accepted refused
  have rules := rules_draftAt_succ events place
  rw [rulesAt_of_not_accepted refused, List.append_nil] at rules
  show Draft.mk _ (draftAt events (place + 1)).rules (waitingAt events (place + 1)).reverse = _
  rw [rules, waiting, List.reverse_append, declaredBefore_succ found]
  cases alternativeAt? events place <;> rfl

/-- Feeding the event at a place leads to the next place. -/
theorem feed_draftAt {event : Event} (found : events[place]? = some event) :
    ((draftAt events place).feed event).2 = draftAt events (place + 1) := by
  cases event with
  | terminals names =>
      have refused : acceptedAt? events place = none := by simp [acceptedAt?, found]
      have absent : alternativeAt? events place = none := by simp [alternativeAt?, found]
      rw [draftAt_succ_of_not_accepted found refused, absent]
      rfl
  | alternative right =>
      have refused : acceptedAt? events place = none := by simp [acceptedAt?, found]
      have delivered : alternativeAt? events place =
          some (right.map (·.namedUnder (declaredBefore events place))) := by
        simp [alternativeAt?, found]
      rw [draftAt_succ_of_not_accepted found refused, delivered]
      show Draft.mk _ _ (right.map (draftAt events place).resolve :: _) = _
      rw [map_resolve]
      simp [Event.declares, draftAt]
  | rule left right =>
      by_cases terminal : left.IsTerminalUnder (declaredBefore events place)
      · have refused : acceptedAt? events place = none := by simp [acceptedAt?, found, terminal]
        have absent : alternativeAt? events place = none := by simp [alternativeAt?, found]
        rw [draftAt_succ_of_not_accepted found refused, absent,
          feed_of_error (apply_rule_of_isTerminal (draftAt events place) terminal right)]
        simp [Event.declares, draftAt]
      · have accepted : acceptedAt? events place =
            some ⟨left.text, right.map (·.namedUnder (declaredBefore events place))⟩ := by
          simp [acceptedAt?, found, terminal]
        rw [feed_of_ok (apply_rule_of_not_isTerminal (draftAt events place) terminal right)]
        show _ = Draft.mk _ (draftAt events (place + 1)).rules
          (waitingAt events (place + 1)).reverse
        rw [rules_draftAt_succ, rulesAt_of_accepted accepted, waitingAt_succ_of_accepted accepted,
          declaredBefore_succ found]
        simp [Event.declares, draftAt]

/-- By induction on the place: a run of the events before it leads to it. -/
theorem feedEach_take (events : List Event) {place : Nat} (bound : place ≤ events.length) :
    (empty.feedEach (events.take place)).2 = draftAt events place := by
  induction place with
  | zero => simp [feedEach, draftAt, declaredBefore, waitingAt, empty]
  | succ place inductionHypothesis =>
      have found : events[place]? = some events[place] := List.getElem?_eq_getElem bound
      have before := inductionHypothesis (Nat.le_of_succ_le bound)
      rw [List.take_add_one, found, feedEach_append, before]
      exact feed_draftAt found

/-- Whatever was delivered before a place is now on the right of a rule or held, all of it and
nothing twice. -/
theorem perm_delivered (events : List Event) (place : Nat) :
    ((draftAt events place).rules.map NamedRule.right ++ (draftAt events place).held).Perm
      ((List.range place).filterMap (deliveredAt? events)) := by
  induction place with
  | zero => simp [draftAt, waitingAt]
  | succ place inductionHypothesis =>
      rw [List.range_succ, List.filterMap_append, rules_draftAt_succ, List.map_append]
      refine List.Perm.trans ?_ (inductionHypothesis.append_right _)
      rw [List.append_assoc, List.append_assoc]
      apply List.Perm.append_left
      show (_ ++ (waitingAt events (place + 1)).reverse).Perm
        ((waitingAt events place).reverse ++ _)
      cases accepted : acceptedAt? events place with
      | none =>
          have delivered : [place].filterMap (deliveredAt? events) =
              (alternativeAt? events place).toList.reverse := by
            cases alternative : alternativeAt? events place <;>
              simp [deliveredAt?, accepted, alternative]
          rw [rulesAt_of_not_accepted accepted, waitingAt_succ_of_not_accepted accepted, delivered,
            List.reverse_append, List.map_nil, List.nil_append]
          exact List.perm_append_comm
      | some rule =>
          have delivered : [place].filterMap (deliveredAt? events) = [rule.right] := by
            simp [deliveredAt?, accepted]
          have given : (rulesAt events place).map NamedRule.right =
              rule.right :: (waitingAt events place).reverse := by
            rw [rulesAt_of_accepted accepted]
            exact congrArg (rule.right :: ·) ((List.map_map ..).trans (List.map_id _))
          rw [given, waitingAt_succ_of_accepted accepted, delivered, List.reverse_nil,
            List.append_nil]
          exact (List.perm_append_singleton _ _).symm

/-- Only a rule is ever refused, and it is if its left side is a terminal by then. -/
theorem feed_draftAt_error_iff (events : List Event) (place : Nat) (event : Event)
    (error : GrammarError) : ((draftAt events place).feed event).1 = .error error ↔
      ∃ left right, event = .rule left right ∧
        left.IsTerminalUnder (declaredBefore events place) ∧ .terminalOnLeft left.text = error := by
  cases event with
  | terminals names => simp [feed]
  | alternative right => simp [feed]
  | rule left right =>
      by_cases terminal : left.IsTerminalUnder (declaredBefore events place)
      · rw [feed_of_error (apply_rule_of_isTerminal (draftAt events place) terminal right)]
        simp [terminal]
      · rw [feed_of_ok (apply_rule_of_not_isTerminal (draftAt events place) terminal right)]
        simp [terminal]

end Step

/-! ### The history of a run -/

/-- What a run of all events reports and leaves, told by the events alone. -/
structure HasHistory (events : List Event) (reports : List (Except GrammarError Unit))
    (last : Draft) : Prop where
  answered : reports.length = events.length
  refused_iff : ∀ (place : Nat) (error : GrammarError), reports[place]? = some (.error error) ↔
    ∃ left right, events[place]? = some (.rule left right) ∧
      left.IsTerminalUnder (declaredBefore events place) ∧ .terminalOnLeft left.text = error
  unchanged : ∀ (place : Nat) (error : GrammarError), reports[place]? = some (.error error) →
    (empty.feedEach (events.take (place + 1))).2 = (empty.feedEach (events.take place)).2
  declared : last.declared = declaredBefore events events.length
  rules : last.rules = (List.range events.length).flatMap (rulesAt events)
  held : last.held = (waitingAt events events.length).reverse
  delivered : (last.rules.map NamedRule.right ++ last.held).Perm
    ((List.range events.length).filterMap (deliveredAt? events))
  applied : last = empty.applyEach events

/-- A run adds at every place what the place and the events before it say, and loses nothing. -/
theorem feedEach_history (events : List Event) :
    HasHistory events (empty.feedEach events).1 (empty.feedEach events).2 := by
  have last : (empty.feedEach events).2 = draftAt events events.length := by
    have taken := feedEach_take events (Nat.le_refl events.length)
    rwa [List.take_length] at taken
  have reported (place : Nat) : (empty.feedEach events).1[place]? =
      events[place]?.map fun event => ((draftAt events place).feed event).1 := by
    rw [report_feedEach]
    cases found : events[place]? with
    | none => rfl
    | some event =>
        obtain ⟨bound, _⟩ := List.getElem?_eq_some_iff.mp found
        rw [feedEach_take events (Nat.le_of_lt bound)]
  constructor
  case answered => exact length_feedEach empty events
  case refused_iff =>
    intro place error
    rw [reported]
    cases found : events[place]? with
    | none => simp
    | some event => simpa using feed_draftAt_error_iff events place event error
  case unchanged =>
    intro place error failed
    rw [reported] at failed
    obtain ⟨event, found, refused⟩ := Option.map_eq_some_iff.mp failed
    obtain ⟨bound, _⟩ := List.getElem?_eq_some_iff.mp found
    rw [feedEach_take events bound, feedEach_take events (Nat.le_of_lt bound), ← feed_draftAt found]
    exact feed_unchanged refused
  case declared => rw [last]; rfl
  case rules => rw [last]; rfl
  case held => rw [last]; rfl
  case delivered => rw [last]; exact perm_delivered events events.length
  case applied => exact feedEach_eq_applyEach empty events

/-- The name is declared between the two alternatives, and what is refused adopts neither. -/
example : empty.feedEach [.alternative [.name "a"], .terminals ["a"], .rule (.name "a") [],
    .alternative [.name "a"], .rule (.name "S") []] =
    ([.ok (), .ok (), .error (.terminalOnLeft "a"), .ok (), .ok ()],
      ⟨["a"], [⟨"S", []⟩, ⟨"S", [.terminal "a"]⟩, ⟨"S", [.nonterminal "a"]⟩], []⟩) := by
  cbv

end Draft

end Predictive
