import Predictive.GrammarText.Combinators

/-!
Contract: attempts succeed and fail in a row, and a repetition comes to where its items end.

Owns: how far attempts in a row are refused, one token, and repetitions of an item that is absent,
broken off or whole.
Does not own: what items there are.

A repetition that ends in front of a broken item succeeds, but the place at which the item has been
refused stays among its refusals. What comes behind it is then refused no further than there.
-/

namespace Predictive.GrammarText

variable {tokens : List Token}

/-! ### Attempts in a row -/

namespace Attempt

variable {Value First Second Other : Type}

/-- A value is read up to a place, and no refusal on the way is further than another. -/
structure Reads (attempt : Attempt Value) (value : Value) (place furthest : Nat) : Prop where
  result_eq : attempt.result = some (value, place)
  bounded : ∀ refusal ∈ attempt.refusals, refusal ≤ furthest

/-- Nothing is read, and the furthest refusal is at a place. -/
structure FailsAt (attempt : Attempt Value) (furthest : Nat) : Prop where
  result_eq : attempt.result = none
  refused : furthest ∈ attempt.refusals
  bounded : ∀ refusal ∈ attempt.refusals, refusal ≤ furthest

theorem Reads.map {attempt : Attempt Value} {value : Value} {place furthest : Nat}
    (reads : attempt.Reads value place furthest) (view : Value → Other) :
    (attempt.map view).Reads (view value) place furthest where
  result_eq := by rw [Attempt.map, reads.result_eq, Option.map_some]
  bounded := reads.bounded

theorem Reads.mono {attempt : Attempt Value} {value : Value} {place furthest other : Nat}
    (reads : attempt.Reads value place furthest) (le : furthest ≤ other) :
    attempt.Reads value place other where
  result_eq := reads.result_eq
  bounded := fun refusal member => Nat.le_trans (reads.bounded refusal member) le

theorem FailsAt.map {attempt : Attempt Value} {furthest : Nat} (fails : attempt.FailsAt furthest)
    (view : Value → Other) : (attempt.map view).FailsAt furthest where
  result_eq := by rw [Attempt.map, fails.result_eq, Option.map_none]
  refused := fails.refused
  bounded := fails.bounded

variable {first : Attempt First} {second : Nat → Attempt Second} {value : First}
  {place furthest : Nat}

theorem andThen_of_some (taken : first.result = some (value, place)) :
    first.andThen second =
      ⟨(second place).result.map fun (other, behind) => ((value, other), behind),
        first.refusals ++ (second place).refusals⟩ := by
  rw [andThen, taken]

theorem Reads.andThen {other : Second} {behind last : Nat}
    (reads : first.Reads value place furthest) (readsOn : (second place).Reads other behind last)
    (le : furthest ≤ last) : (first.andThen second).Reads (value, other) behind last := by
  rw [andThen_of_some reads.result_eq]
  refine ⟨by rw [readsOn.result_eq, Option.map_some], ?_⟩
  intro refusal member
  rcases List.mem_append.mp member with before | behind
  · exact Nat.le_trans (reads.bounded refusal before) le
  · exact readsOn.bounded refusal behind

theorem Reads.mem_refusals_andThen {refusal : Nat} (reads : first.Reads value place furthest)
    (refused : refusal ∈ (second place).refusals) : refusal ∈ (first.andThen second).refusals := by
  rw [andThen_of_some reads.result_eq]
  exact List.mem_append_right _ refused

/-- What comes behind fails further on. -/
theorem Reads.andThen_fails {last : Nat} (reads : first.Reads value place furthest)
    (fails : (second place).FailsAt last) (le : furthest ≤ last) :
    (first.andThen second).FailsAt last := by
  rw [andThen_of_some reads.result_eq]
  refine ⟨by rw [fails.result_eq, Option.map_none], List.mem_append_right _ fails.refused, ?_⟩
  intro refusal member
  rcases List.mem_append.mp member with before | behind
  · exact Nat.le_trans (reads.bounded refusal before) le
  · exact fails.bounded refusal behind

/-- What comes behind fails, but not further than something was refused before. -/
theorem Reads.andThen_fails_before {last : Nat} (reads : first.Reads value place furthest)
    (refused : furthest ∈ first.refusals) (fails : (second place).FailsAt last)
    (le : last ≤ furthest) : (first.andThen second).FailsAt furthest := by
  rw [andThen_of_some reads.result_eq]
  refine ⟨by rw [fails.result_eq, Option.map_none], List.mem_append_left _ refused, ?_⟩
  intro refusal member
  rcases List.mem_append.mp member with before | behind
  · exact reads.bounded refusal before
  · exact Nat.le_trans (fails.bounded refusal behind) le

theorem FailsAt.andThen (fails : first.FailsAt furthest) :
    (first.andThen second).FailsAt furthest := by
  rw [Attempt.andThen, fails.result_eq]
  exact ⟨rfl, fails.refused, fails.bounded⟩

end Attempt

/-! ### Outcomes -/

/-- What an item comes to at a place. Either it does not open there; or it is broken off at a place
where the reader is stuck; or it is whole, and another may follow. -/
inductive ItemOutcome {Value : Type} (tokens : List Token) (Opens : Token → Prop)
    (Stuck : Nat → Prop) (Stands : Nat → List Value → Prop) (place : Nat) (earlier : List Value)
    (attempt : Attempt Value) : Prop where
  | absent (closed : ∀ token, tokens[place]? = some token → ¬Opens token)
      (fails : attempt.FailsAt place)
  | broken {token : Token} {stuck : Nat} (opened : tokens[place]? = some token)
      (opens : Opens token) (behind : place ≤ stuck) (fails : attempt.FailsAt stuck)
      (isStuck : Stuck stuck)
  | whole {value : Value} {next : Nat} (progress : place < next) (inside : next ≤ tokens.length)
      (reads : attempt.Reads value next next) (stands : Stands next (earlier ++ [value]))

/-- What a repetition comes to: it ends where no item opens, or in front of a broken one. -/
inductive RepeatedOutcome {Value : Type} (tokens : List Token) (Opens : Token → Prop)
    (Stuck : Nat → Prop) (Stands : Nat → List Value → Prop) (place : Nat) (earlier : List Value)
    (attempt : Attempt (List Value)) : Prop where
  | closed {values : List Value} {stop : Nat} (onward : place ≤ stop)
      (reads : attempt.Reads values stop stop) (stands : Stands stop (earlier ++ values))
      (closed : ∀ token, tokens[stop]? = some token → ¬Opens token)
  | broken {values : List Value} {token : Token} {stop stuck : Nat} (onward : place ≤ stop)
      (reads : attempt.Reads values stop stuck) (refused : stuck ∈ attempt.refusals)
      (opened : tokens[stop]? = some token) (opens : Opens token) (behind : stop ≤ stuck)
      (isStuck : Stuck stuck)

namespace Combinators

variable {library : Combinators} (lawful : library.IsLawful)

include lawful

/-! ### One token -/

section Select

variable {Value : Type} {choose : Token → Option Value} {place : Nat}

theorem IsLawful.select_reads {token : Token} {value : Value}
    (atPlace : tokens[place]? = some token) (chosen : choose token = some value) :
    (library.attempt (library.select choose) tokens place).Reads value (place + 1) place := by
  rw [lawful.attempt_select, atPlace, Option.bind_some, chosen]
  exact ⟨rfl, by simp⟩

theorem IsLawful.select_fails
    (refused : ∀ token, tokens[place]? = some token → choose token = none) :
    (library.attempt (library.select choose) tokens place).FailsAt place := by
  have nothing : tokens[place]?.bind choose = none := Option.bind_eq_none_iff.mpr refused
  rw [lawful.attempt_select, nothing]
  exact ⟨rfl, List.mem_singleton.mpr rfl, by simp⟩

theorem IsLawful.word_reads {expected : Token} (atPlace : tokens[place]? = some expected) :
    (library.attempt (library.word expected) tokens place).Reads () (place + 1) place :=
  lawful.select_reads atPlace (if_pos rfl)

theorem IsLawful.word_fails {expected : Token} (other : tokens[place]? ≠ some expected) :
    (library.attempt (library.word expected) tokens place).FailsAt place := by
  apply lawful.select_fails
  intro token atPlace
  apply if_neg
  rintro rfl
  exact other atPlace

theorem IsLawful.endOfInput_reads (atEnd : tokens[place]? = none) :
    (library.attempt library.endOfInput tokens place).Reads () place place := by
  rw [lawful.attempt_endOfInput, if_pos atEnd]
  exact ⟨rfl, by simp⟩

theorem IsLawful.endOfInput_fails (notEnd : tokens[place]? ≠ none) :
    (library.attempt library.endOfInput tokens place).FailsAt place := by
  rw [lawful.attempt_endOfInput, if_neg notEnd]
  exact ⟨rfl, List.mem_singleton.mpr rfl, by simp⟩

end Select

/-! ### Repetitions -/

/-- By induction on the tokens that are left. -/
theorem IsLawful.repeated_outcome {Value : Type} {item : library.Parser Value}
    {Opens : Token → Prop} {Stuck : Nat → Prop} {Stands : Nat → List Value → Prop}
    (each : ∀ place earlier, Stands place earlier →
      ItemOutcome tokens Opens Stuck Stands place earlier (library.attempt item tokens place))
    {place : Nat} {earlier : List Value} (stands : Stands place earlier) :
    RepeatedOutcome tokens Opens Stuck Stands place earlier
      (library.attempt (library.repeated 0 item) tokens place) := by
  induction room : tokens.length - place using Nat.strongRecOn generalizing place earlier with
  | ind room inductionHypothesis =>
      cases each place earlier stands with
      | absent closed fails =>
          rw [lawful.attempt_repeated_of_none 0 item tokens place fails.result_eq]
          exact .closed (Nat.le_refl _) ⟨rfl, fails.bounded⟩ (by rwa [List.append_nil]) closed
      | broken opened opens behind fails isStuck =>
          rw [lawful.attempt_repeated_of_none 0 item tokens place fails.result_eq]
          exact .broken (Nat.le_refl _) ⟨rfl, fails.bounded⟩ fails.refused opened opens behind
            isStuck
      | @whole value next progress inside reads standsNext =>
          rw [lawful.attempt_repeated_of_some 0 item tokens place value next reads.result_eq
            progress inside]
          have rest := inductionHypothesis (tokens.length - next) (by omega) standsNext rfl
          cases rest with
          | @closed values stop onward readsOn standsStop closed =>
              refine .closed (by omega) ((reads.andThen readsOn onward).map _) ?_ closed
              rwa [List.append_assoc] at standsStop
          | @broken values token stop stuck onward readsOn refused opened opens behind isStuck =>
              have bound : next ≤ stuck := by omega
              refine .broken (by omega) ((reads.andThen readsOn bound).map _) ?_ opened opens behind
                isStuck
              rw [Attempt.andThen_of_some reads.result_eq]
              exact List.mem_append_right _ refused

end Combinators

end Predictive.GrammarText
