import Predictive.GrammarText.Combinators

/-!
Contract: a library of combinators that keeps the laws.

Owns: parsers as functions from places to attempts, and the laws for them.
Does not own: what is parsed by them.

A repetition does not go on behind an item that has taken nothing; so it ends, whatever the item
is.
-/

namespace Predictive.GrammarText

namespace Backtracking

/-- What it makes of the tokens from each place on. -/
abbrev Parser (Value : Type) : Type := List Token → Nat → Attempt Value

variable {Value Other First Second Item Separator : Type}

def select (choose : Token → Option Value) : Parser Value := fun tokens place =>
  match tokens[place]?.bind choose with
  | some value => ⟨some (value, place + 1), []⟩
  | none => ⟨none, [place]⟩

def endOfInput : Parser Unit := fun tokens place =>
  if tokens[place]? = none then ⟨some ((), place), []⟩ else ⟨none, [place]⟩

def andThen (first : Parser First) (second : Parser Second) : Parser (First × Second) :=
  fun tokens place => (first tokens place).andThen (second tokens)

def repeated (least : Nat) (item : Parser Item) (tokens : List Token) (place : Nat) :
    Attempt (List Item) :=
  match (item tokens place).result with
  | none => ⟨if least = 0 then some ([], place) else none, (item tokens place).refusals⟩
  | some (value, next) =>
      if place < next ∧ next ≤ tokens.length then
        let rest := repeated (least - 1) item tokens next
        ⟨rest.result.map fun (more, behind) => (value :: more, behind),
          (item tokens place).refusals ++ rest.refusals⟩
      else ⟨none, (item tokens place).refusals⟩
termination_by tokens.length - place
decreasing_by omega

def separatedBy (item : Parser Item) (separator : Parser Separator) : Parser (List Item) :=
  fun tokens place =>
    match (item tokens place).result with
    | none => ⟨some ([], place), (item tokens place).refusals⟩
    | some _ =>
        ((item tokens place).andThen
          (repeated 0 (fun tokens place => (andThen separator item tokens place).map Prod.snd)
            tokens)).map fun (value, more) => value :: more

/-- The value of an attempt, or the furthest of its refusals. -/
def report (tokens : List Token) (attempt : Attempt Value) : Except (List Failure) Value :=
  match attempt.result with
  | some (value, _) => .ok value
  | none => .error [⟨tokens[attempt.refusals.foldl max 0]?, attempt.refusals.foldl max 0⟩]

def parse (parser : Parser Value) (tokens : List Token) : Except (List Failure) Value :=
  report tokens ((andThen parser endOfInput tokens 0).map Prod.fst)

/-! ### The laws -/

theorem repeated_of_none (least : Nat) (item : Parser Item) (tokens : List Token) (place : Nat)
    (fails : (item tokens place).result = none) : repeated least item tokens place =
      ⟨if least = 0 then some ([], place) else none, (item tokens place).refusals⟩ := by
  rw [repeated, fails]

theorem repeated_of_some (least : Nat) (item : Parser Item) (tokens : List Token) (place : Nat)
    (value : Item) (next : Nat) (taken : (item tokens place).result = some (value, next))
    (progress : place < next) (inside : next ≤ tokens.length) :
    repeated least item tokens place =
      ((item tokens place).andThen (repeated (least - 1) item tokens)).map
        fun (value, more) => value :: more := by
  rw [repeated, taken]
  simp only [progress, inside, and_self, if_true, Attempt.map, Attempt.andThen, taken,
    Option.map_map]
  rfl

theorem separatedBy_of_none (item : Parser Item) (separator : Parser Separator)
    (tokens : List Token) (place : Nat) (fails : (item tokens place).result = none) :
    separatedBy item separator tokens place =
      ⟨some ([], place), (item tokens place).refusals⟩ := by
  rw [separatedBy, fails]

theorem separatedBy_of_some (item : Parser Item) (separator : Parser Separator)
    (tokens : List Token) (place : Nat) (value : Item) (next : Nat)
    (taken : (item tokens place).result = some (value, next)) :
    separatedBy item separator tokens place =
      ((item tokens place).andThen
        (repeated 0 (fun tokens place => (andThen separator item tokens place).map Prod.snd)
          tokens)).map fun (value, more) => value :: more := by
  rw [separatedBy, taken]

theorem parse_of_some (parser : Parser Value) (tokens : List Token) (value : Value) (place : Nat)
    (taken : ((andThen parser endOfInput tokens 0).map Prod.fst).result = some (value, place)) :
    parse parser tokens = .ok value := by
  rw [parse, report, taken]

theorem le_foldl_max (places : List Nat) (start : Nat) :
    start ≤ places.foldl max start ∧ ∀ place ∈ places, place ≤ places.foldl max start := by
  induction places generalizing start with
  | nil => exact ⟨Nat.le_refl _, by simp⟩
  | cons head places inductionHypothesis =>
      obtain ⟨fromStart, fromPlaces⟩ := inductionHypothesis (max start head)
      rw [List.foldl_cons, List.forall_mem_cons]
      exact ⟨by omega, by omega, fromPlaces⟩

theorem foldl_max_le {places : List Nat} {start bound : Nat} (startLe : start ≤ bound)
    (bounded : ∀ place ∈ places, place ≤ bound) : places.foldl max start ≤ bound := by
  induction places generalizing start with
  | nil => exact startLe
  | cons head places inductionHypothesis =>
      obtain ⟨headLe, placesLe⟩ := List.forall_mem_cons.mp bounded
      exact inductionHypothesis (by omega) placesLe

theorem parse_of_none (parser : Parser Value) (tokens : List Token) (furthest : Nat)
    (fails : ((andThen parser endOfInput tokens 0).map Prod.fst).result = none)
    (refused : furthest ∈ ((andThen parser endOfInput tokens 0).map Prod.fst).refusals)
    (bounded : ∀ place ∈ ((andThen parser endOfInput tokens 0).map Prod.fst).refusals,
      place ≤ furthest) :
    ∃ others, parse parser tokens = .error (⟨tokens[furthest]?, furthest⟩ :: others) := by
  have reported : ((andThen parser endOfInput tokens 0).map Prod.fst).refusals.foldl max 0 =
      furthest :=
    Nat.le_antisymm (foldl_max_le (Nat.zero_le _) bounded) ((le_foldl_max _ 0).2 furthest refused)
  refine ⟨[], ?_⟩
  rw [parse, report, fails, reported]

end Backtracking

namespace Combinators

def backtracking : Combinators where
  Parser := Backtracking.Parser
  select := Backtracking.select
  endOfInput := Backtracking.endOfInput
  map view parser := fun tokens place => (parser tokens place).map view
  andThen := Backtracking.andThen
  ignoreThen first second := fun tokens place =>
    (Backtracking.andThen first second tokens place).map Prod.snd
  thenIgnore first second := fun tokens place =>
    (Backtracking.andThen first second tokens place).map Prod.fst
  repeated := Backtracking.repeated
  separatedBy := Backtracking.separatedBy
  attempt parser := parser
  parse := Backtracking.parse

theorem isLawful_backtracking : backtracking.IsLawful where
  attempt_select _ _ _ := rfl
  attempt_endOfInput _ _ := rfl
  attempt_map _ _ _ _ := rfl
  attempt_andThen _ _ _ _ := rfl
  attempt_ignoreThen _ _ _ _ := rfl
  attempt_thenIgnore _ _ _ _ := rfl
  attempt_repeated_of_none := Backtracking.repeated_of_none
  attempt_repeated_of_some := Backtracking.repeated_of_some
  attempt_separatedBy_of_none := Backtracking.separatedBy_of_none
  attempt_separatedBy_of_some := Backtracking.separatedBy_of_some
  parse_of_some := Backtracking.parse_of_some
  parse_of_none := Backtracking.parse_of_none

end Combinators

end Predictive.GrammarText
