import Predictive.Proofs.Discovery
import Predictive.Proofs.Table.Lookahead
import Predictive.Table.Discovering

/-!
Contract: the search that numbers targets as it goes finds the states of the table.

Owns: what numbering contexts adds to the states found, the rows of a state, and the invariant of
the search.
Does not own: what the states are.

Every lookahead of a rule numbers the same contexts again, which adds nothing; so the keys grow as
in an exploration that goes rule by rule, and the keys found at any time are the first of all. A
number given early is therefore the place among all contexts in the end.
-/

namespace Predictive

namespace Discovery

/-! ### Numbering -/

/-- States are found behind those that there are, with the contexts that are new as keys. -/
structure Extends (found later : List FoundState) (contexts : List Context) : Prop where
  keys_eq : later.map FoundState.key = contexts.foldl insertNew (found.map FoundState.key)
  stays : found <+: later

theorem Extends.refl (found : List FoundState) : Extends found found [] :=
  ⟨rfl, List.prefix_refl found⟩

theorem Extends.trans {found middle later : List FoundState} {first second : List Context}
    (head : Extends found middle first) (tail : Extends middle later second) :
    Extends found later (first ++ second) :=
  ⟨by rw [tail.keys_eq, head.keys_eq, List.foldl_append], head.stays.trans tail.stays⟩

/-- States that are found keep their places. -/
theorem Extends.getElem? {found later : List FoundState} {contexts : List Context}
    (extended : Extends found later contexts) {place : Nat} (before : place < found.length) :
    later[place]? = found[place]? := by
  obtain ⟨behind, rfl⟩ := extended.stays
  rw [List.getElem?_append_left before]

/-- Filing rows leaves the keys as they are. -/
theorem map_key_set {found : List FoundState} {number : Nat} {state : FoundState}
    (next : found[number]? = some state) (rows : List FoundRow) :
    (found.set number ⟨state.key, rows⟩).map FoundState.key = found.map FoundState.key := by
  have keyNext : (found.map FoundState.key)[number]? = some state.key := by
    rw [List.getElem?_map, next, Option.map_some]
  obtain ⟨inside, same⟩ := List.getElem?_eq_some_iff.mp keyNext
  rw [List.map_set]
  calc (found.map FoundState.key).set number state.key
      = (found.map FoundState.key).set number (found.map FoundState.key)[number] := by rw [same]
    _ = found.map FoundState.key := List.set_getElem_self inside

/-- A row with more targets. -/
def withTargets (row : FoundRow) (more : List Nat) : FoundRow :=
  { row with targets := row.targets ++ more }

theorem withTargets_withTargets (row : FoundRow) (first second : List Nat) :
    withTargets (withTargets row first) second = withTargets row (first ++ second) := by
  simp only [withTargets, List.append_assoc]

section Context

variable {found : List FoundState} {row : FoundRow} {context : Context}

theorem numberContext_of_some {place : Nat}
    (known : (found.map FoundState.key).idxOf? context = some place) :
    numberContext (found, row) context = (found, withTargets row [place]) := by
  simp only [numberContext, known]
  rfl

theorem numberContext_of_none (new : (found.map FoundState.key).idxOf? context = none) :
    numberContext (found, row) context =
      (found ++ [⟨context, []⟩], withTargets row [found.length]) := by
  simp only [numberContext, new]
  rfl

end Context

/-- A context is numbered by the place that it has as a key from then on. -/
theorem numberContext_spec (found : List FoundState) (row : FoundRow) (context : Context) :
    Extends found (numberContext (found, row) context).1 [context] ∧
      ∃ place, ((numberContext (found, row) context).1.map FoundState.key)[place]? = some context ∧
        (numberContext (found, row) context).2 = withTargets row [place] := by
  cases known : (found.map FoundState.key).idxOf? context with
  | some place =>
      rw [numberContext_of_some known]
      obtain ⟨inside, atPlace, _⟩ := List.idxOf?_eq_some_iff.mp known
      have found? := List.getElem?_eq_some_iff.mpr ⟨inside, atPlace⟩
      have unchanged := foldl_insertNew_of_known
        (List.forall_mem_singleton.mpr (List.mem_of_getElem? found?))
      exact ⟨⟨unchanged.symm, List.prefix_refl found⟩, place, found?, rfl⟩
  | none =>
      rw [numberContext_of_none known]
      have new : context ∉ found.map FoundState.key := List.idxOf?_eq_none_iff.mp known
      have keys : (found ++ [(⟨context, []⟩ : FoundState)]).map FoundState.key =
          found.map FoundState.key ++ [context] := by
        rw [List.map_append, List.map_singleton]
      refine ⟨⟨?_, List.prefix_append found _⟩, found.length, ?_, rfl⟩
      · rw [keys, List.foldl_cons, List.foldl_nil, insertNew, if_neg new]
      · rw [keys, List.getElem?_append_right (by simp), List.length_map, Nat.sub_self]
        rfl

section Numbers

variable {all : List Context}

theorem idxOf_eq_of_prefix (nodup : all.Nodup) {keys : List Context} (within : keys <+: all)
    {context : Context} {place : Nat} (atPlace : keys[place]? = some context) :
    all.idxOf context = place := by
  obtain ⟨behind, rfl⟩ := within
  have inside := (List.getElem?_eq_some_iff.mp atPlace).1
  have inAll : (keys ++ behind)[place]? = some context := by
    rwa [List.getElem?_append_left inside]
  obtain ⟨bound, rfl⟩ := List.getElem?_eq_some_iff.mp inAll
  exact nodup.idxOf_getElem place bound

theorem extends_numberContexts (contexts : List Context) (progress : List FoundState × FoundRow) :
    Extends progress.1 (contexts.foldl numberContext progress).1 contexts := by
  induction contexts generalizing progress with
  | nil => exact Extends.refl _
  | cons context contexts inductionHypothesis =>
      exact (numberContext_spec progress.1 progress.2 context).1.trans
        (inductionHypothesis (numberContext progress context))

/-- The numbers are places among all contexts, as soon as the keys are the first of all. -/
theorem numberContexts_eq (nodup : all.Nodup) (contexts : List Context)
    (progress : List FoundState × FoundRow)
    (within : (contexts.foldl numberContext progress).1.map FoundState.key <+: all) :
    (contexts.foldl numberContext progress).2 =
      withTargets progress.2 (contexts.map (all.idxOf ·)) := by
  induction contexts generalizing progress with
  | nil => simp [withTargets]
  | cons context contexts inductionHypothesis =>
      obtain ⟨_, place, atPlace, numbered⟩ := numberContext_spec progress.1 progress.2 context
      have stays := (extends_numberContexts contexts (numberContext progress context)).stays
      have known := idxOf_eq_of_prefix nodup ((stays.map FoundState.key).trans within) atPlace
      rw [List.foldl_cons, inductionHypothesis _ within, numbered, withTargets_withTargets,
        List.map_cons, known, List.singleton_append]

theorem extends_numberRows (rows : List FoundRow) (found : List FoundState) :
    Extends found (numberRows found rows).1 (rows.flatMap FoundRow.contexts) := by
  induction rows generalizing found with
  | nil => exact Extends.refl found
  | cons row rows inductionHypothesis =>
      exact (extends_numberContexts row.contexts (found, row)).trans (inductionHypothesis _)

theorem numberRows_eq (nodup : all.Nodup) (rows : List FoundRow) (found : List FoundState)
    (within : (numberRows found rows).1.map FoundState.key <+: all) :
    (numberRows found rows).2 =
      rows.map fun row => withTargets row (row.contexts.map (all.idxOf ·)) := by
  induction rows generalizing found with
  | nil => rfl
  | cons row rows inductionHypothesis =>
      have stays := (extends_numberRows rows
        (row.contexts.foldl numberContext (found, row)).1).stays
      have first := numberContexts_eq nodup row.contexts (found, row)
        ((stays.map FoundState.key).trans within)
      have others := inductionHypothesis _ within
      exact congrArg₂ List.cons first others

end Numbers

end Discovery

namespace Grammar

variable {grammar : Grammar} {length : Nat}

/-! ### Rows -/

/-- The rows of a state before their targets are numbered. -/
def openRows (grammar : Grammar) (length : Nat) (key : Context) : List FoundRow :=
  (grammar.rulesFor key.nonterminal).flatMap fun rule =>
    (grammar.choiceFor length key rule).lookaheads.strings.map fun lookahead =>
      ⟨lookahead, rule.number, (grammar.choiceFor length key rule).contexts, []⟩

section WellFormed

variable (wellFormed : grammar.WellFormed)

include wellFormed

theorem WellFormed.stateRows_eq (length : Nat) (key : Context) :
    grammar.stateRows key length = .ok (grammar.openRows length key) := by
  have each : ∀ rule ∈ grammar.rulesFor key.nonterminal, grammar.rowsOf key length rule =
      .ok ((grammar.choiceFor length key rule).lookaheads.strings.map fun lookahead =>
        ⟨lookahead, rule.number, (grammar.choiceFor length key rule).contexts, []⟩) := by
    intro rule _
    rw [rowsOf, wellFormed.first_eq, wellFormed.follow_eq]
    rfl
  rw [stateRows, mapM_eq_ok each]
  rfl

theorem WellFormed.successorContexts_eq {key : Context} (known : key ∈ grammar.contexts length) :
    successorContexts (grammar.profiles length) length key =
      (grammar.rulesFor key.nonterminal).flatMap fun rule =>
        (grammar.choiceFor length key rule).contexts := by
  obtain ⟨_, isContext, _⟩ := wellFormed.mem_contexts.mp known
  rw [successorContexts, profilesFor_profiles (wellFormed.reachable_of_context isContext),
    List.flatMap_map]
  rfl

/-- Row by row the contexts come several times over, but no others and in the same order. -/
theorem WellFormed.foldl_insertNew_openRows {key : Context}
    (known : key ∈ grammar.contexts length) (keys : List Context) :
    ((grammar.openRows length key).flatMap FoundRow.contexts).foldl Discovery.insertNew keys =
      (successorContexts (grammar.profiles length) length key).foldl Discovery.insertNew keys := by
  have each : ∀ rule ∈ grammar.rulesFor key.nonterminal,
      (grammar.choiceFor length key rule).lookaheads.strings ≠ [] := by
    intro rule ofKey
    obtain ⟨string, member⟩ := wellFormed.exists_lookahead known ofKey
    exact List.ne_nil_of_mem member
  rw [wellFormed.successorContexts_eq known, openRows, List.flatMap_assoc]
  simp only [List.flatMap_map]
  exact Discovery.foldl_insertNew_repeated _ each keys

/-- A state of the table files the rows with the places of their contexts. -/
theorem WellFormed.found_state {number : Nat} {key : Context}
    (atNumber : (grammar.contexts length)[number]? = some key) :
    ((grammar.canonicalTable length).state? number).map State.found =
      some ⟨key, (grammar.openRows length key).map fun row =>
        Discovery.withTargets row (row.contexts.map ((grammar.contexts length).idxOf ·))⟩ := by
  rw [wellFormed.state?_canonicalTable atNumber, Option.map_some, State.found, State.rows,
    openRows, List.flatMap_map]
  simp only [List.map_flatMap, List.map_map]
  rfl

end WellFormed

/-! ### The search -/

/-- What holds when the states before a number have been filed: an exploration can go on from
their keys to all contexts, and each has the rows of the state in the table. -/
structure Files (grammar : Grammar) (length number : Nat) (found : List FoundState) : Prop where
  bound : number ≤ found.length
  explores : ∃ steps, Discovery.explore (successorContexts (grammar.profiles length) length) steps
    number (found.map FoundState.key) = grammar.contexts length
  filed : ∀ place < number,
    found[place]? = ((grammar.canonicalTable length).state? place).map State.found

theorem Files.within {number : Nat} {found : List FoundState}
    (files : grammar.Files length number found) :
    found.map FoundState.key <+: grammar.contexts length := by
  obtain ⟨steps, explores⟩ := files.explores
  rw [← explores]
  exact Discovery.prefix_explore _ _ _

/-- A state that has been found stands at the place of its key among all contexts. -/
theorem Files.getElem?_contexts {number : Nat} {found : List FoundState} {state : FoundState}
    (files : grammar.Files length number found) {place : Nat} (atPlace : found[place]? = some state) :
    (grammar.contexts length)[place]? = some state.key := by
  have inside := (List.getElem?_eq_some_iff.mp atPlace).1
  obtain ⟨behind, all⟩ := files.within
  rw [← all, List.getElem?_append_left (by rwa [List.length_map]), List.getElem?_map, atPlace,
    Option.map_some]

theorem Files.start (grammar : Grammar) (length : Nat) :
    grammar.Files length 0 [⟨grammar.startContext length, []⟩] :=
  ⟨Nat.zero_le _, ⟨_, rfl⟩, fun _ before => absurd before (Nat.not_lt_zero _)⟩

/-- Where no state is left, all states of the table have been filed. -/
theorem Files.finished {number : Nat} {found : List FoundState}
    (files : grammar.Files length number found) (nothing : found[number]? = none) :
    found = (grammar.canonicalTable length).states.map State.found := by
  have all : found.map FoundState.key = grammar.contexts length := by
    obtain ⟨steps, explores⟩ := files.explores
    have noKey : (found.map FoundState.key)[number]? = none := by
      rw [List.getElem?_map, nothing, Option.map_none]
    cases steps with
    | zero => exact explores
    | succ steps => rwa [Discovery.explore, noKey] at explores
  have lengths : found.length = (grammar.canonicalTable length).states.length := by
    rw [← List.length_map FoundState.key, all, canonicalTable, List.length_map]
  have outside := List.getElem?_eq_none_iff.mp nothing
  apply List.ext_getElem?
  intro place
  rw [List.getElem?_map]
  by_cases before : place < number
  · exact files.filed place before
  · rw [List.getElem?_eq_none (by omega), List.getElem?_eq_none (by omega), Option.map_none]

section WellFormed

variable (wellFormed : grammar.WellFormed)

include wellFormed

/-- The exploration can go on when the contexts of one more state have been numbered. -/
theorem WellFormed.explores_step {number : Nat} {found : List FoundState} {state : FoundState}
    (files : grammar.Files length number found) (next : found[number]? = some state) :
    ∃ steps, Discovery.explore (successorContexts (grammar.profiles length) length) steps
      (number + 1) ((Discovery.numberRows found (grammar.openRows length state.key)).1.map
        FoundState.key) = grammar.contexts length := by
  have known := List.mem_of_getElem? (files.getElem?_contexts next)
  have complete := wellFormed.contexts_complete length
  have keyNext : (found.map FoundState.key)[number]? = some state.key := by
    rw [List.getElem?_map, next, Option.map_some]
  have closed : ∀ successor ∈ successorContexts (grammar.profiles length) length state.key,
      successor ∈ grammar.contexts length := by
    intro successor member
    exact (complete.mem_iff successor).mpr (((complete.mem_iff state.key).mp known).tail member)
  obtain ⟨steps, explores⟩ := files.explores
  have exploresOn := Discovery.exists_explore_step explores keyNext closed
  rwa [← wellFormed.foldl_insertNew_openRows known,
    ← (Discovery.extends_numberRows (grammar.openRows length state.key) found).keys_eq]
    at exploresOn

/-- Filing one more state. -/
theorem WellFormed.files_step {number : Nat} {found : List FoundState} {state : FoundState}
    (files : grammar.Files length number found) (next : found[number]? = some state) :
    grammar.Files length (number + 1)
      ((Discovery.numberRows found (grammar.openRows length state.key)).1.set number
        ⟨state.key, (Discovery.numberRows found (grammar.openRows length state.key)).2⟩) := by
  have inside := (List.getElem?_eq_some_iff.mp next).1
  have extended := Discovery.extends_numberRows (grammar.openRows length state.key) found
  have longer := extended.stays.length_le
  obtain ⟨steps, explores⟩ := wellFormed.explores_step files next
  have within : (Discovery.numberRows found (grammar.openRows length state.key)).1.map
      FoundState.key <+: grammar.contexts length := by
    rw [← explores]
    exact Discovery.prefix_explore _ _ _
  have numbered :=
    Discovery.numberRows_eq (wellFormed.contexts_complete length).nodup _ found within
  refine ⟨by rw [List.length_set]; omega, ⟨steps, ?_⟩, ?_⟩
  · rw [Discovery.map_key_set ((extended.getElem? inside).trans next), explores]
  · intro place before
    rcases Nat.lt_succ_iff_lt_or_eq.mp before with earlier | rfl
    · rw [List.getElem?_set_ne (by omega), extended.getElem? (by omega)]
      exact files.filed place earlier
    · rw [List.getElem?_set_self (by omega),
        wellFormed.found_state (files.getElem?_contexts next), numbered]

theorem WellFormed.discoverFrom_eq {steps number : Nat} {found : List FoundState}
    (files : grammar.Files length number found)
    (enough : (grammar.contexts length).length < steps + number) :
    Discovery.discoverFrom grammar length steps number found =
      some (.ok ((grammar.canonicalTable length).states.map State.found)) := by
  induction steps generalizing number found with
  | zero =>
      have fits := files.within.length_le
      rw [List.length_map] at fits
      have bound := files.bound
      omega
  | succ steps inductionHypothesis =>
      rw [Discovery.discoverFrom]
      cases next : found[number]? with
      | none => rw [files.finished next]
      | some state =>
          dsimp only
          rw [wellFormed.stateRows_eq]
          exact inductionHypothesis (wellFormed.files_step files next) (by omega)

/-- More steps than there are states are enough. -/
theorem WellFormed.discover_eq {steps : Nat}
    (enough : (grammar.contexts length).length < steps) :
    grammar.discover steps length =
      some (.ok ((grammar.canonicalTable length).states.map State.found)) :=
  wellFormed.discoverFrom_eq (Files.start grammar length) enough

end WellFormed

end Grammar

end Predictive
