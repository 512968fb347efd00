import Predictive.GrammarText.Backtracking
import Predictive.Proofs.GrammarText.Attempts
import Predictive.Proofs.GrammarText.Written

/-!
Contract: a lawful library reads by the expression for a grammar what the reader by phases reads.

Owns: where the reader by phases comes to and is stuck, what each part of the expression makes of
the tokens, and the answer for all of them.
Does not own: attempts in general, the written form, and how a library keeps its laws.

A part that is broken off is forgotten, and what comes behind it is refused at its start; but it
has been refused at the very place at which the reader by phases is stuck (`IsStuck`), and no
refusal is further than that. So this place is carried through all repetitions, up to the report.
-/

namespace Predictive.GrammarText

variable {tokens : List Token}

/-! ### Places of the reader by phases -/

/-- The reader by phases comes to a place in a phase. -/
def Reaches (tokens : List Token) (place : Nat) (phase : Phase) : Prop :=
  Phase.opening.readOn (tokens.take place) = some phase

/-- The reader by phases comes to a place, but there it can neither go on nor end. -/
inductive IsStuck (tokens : List Token) (place : Nat) : Prop where
  | refused {phase : Phase} {token : Token} (reaches : Reaches tokens place phase)
      (atPlace : tokens[place]? = some token) (stuck : phase.next token = none)
  | ended {phase : Phase} (reaches : Reaches tokens place phase)
      (atEnd : tokens[place]? = none) (unfinished : phase.finished? = none)

theorem drop_eq_cons {place : Nat} {token : Token} (atPlace : tokens[place]? = some token) :
    tokens.drop place = token :: tokens.drop (place + 1) := by
  obtain ⟨inside, rfl⟩ := List.getElem?_eq_some_iff.mp atPlace
  exact List.drop_eq_getElem_cons inside

theorem ne_of_atPlace {place : Nat} {token other : Token} (atPlace : tokens[place]? = some token)
    (different : tokens[place]? ≠ some other) : token ≠ other := by
  rintro rfl
  exact different atPlace

theorem take_eq_append {place next : Nat} {written : List Token}
    (split : tokens.drop place = written ++ tokens.drop next) :
    tokens.take next = tokens.take place ++ written := by
  have whole : tokens.take next ++ tokens.drop next =
      (tokens.take place ++ written) ++ tokens.drop next := by
    rw [List.take_append_drop, List.append_assoc, ← split, List.take_append_drop]
  exact List.append_cancel_right whole

/-- What stands at a place within the tokens ends within them. -/
theorem le_length_of_split {place : Nat} {symbols : List WrittenSymbol}
    (inside : place ≤ tokens.length)
    (split : tokens.drop place =
      symbols.map symbolToken ++ tokens.drop (place + symbols.length)) :
    place + symbols.length ≤ tokens.length := by
  have lengths := congrArg List.length split
  rw [List.length_append, List.length_map, List.length_drop, List.length_drop] at lengths
  omega

theorem Reaches.onward {place next : Nat} {phase later : Phase} {written : List Token}
    (reaches : Reaches tokens place phase)
    (split : tokens.drop place = written ++ tokens.drop next)
    (onward : phase.readOn written = some later) : Reaches tokens next later := by
  unfold Reaches at reaches ⊢
  rw [take_eq_append split, Phase.readOn_append, reaches, Option.bind_some, onward]

theorem Reaches.next {place : Nat} {phase later : Phase} {token : Token}
    (reaches : Reaches tokens place phase) (atPlace : tokens[place]? = some token)
    (onward : phase.next token = some later) : Reaches tokens (place + 1) later := by
  have split : tokens.drop place = [token] ++ tokens.drop (place + 1) := drop_eq_cons atPlace
  exact reaches.onward split (by rw [Phase.readOn_singleton, onward])

/-- Where no token from a place on is one that a phase goes on with, the reader is stuck, unless it
may end there. -/
theorem Reaches.isStuck {place : Nat} {phase : Phase} (reaches : Reaches tokens place phase)
    (unfinished : phase.finished? = none)
    (stuck : ∀ token, tokens[place]? = some token → phase.next token = none) :
    IsStuck tokens place := by
  cases atPlace : tokens[place]? with
  | none => exact .ended reaches atPlace unfinished
  | some token => exact .refused reaches atPlace (stuck token atPlace)

/-! ### What the parts come to -/

/-- Alternatives lead from one place to another, and the last of them is complete there. -/
def SpansAlternatives (tokens : List Token) (place : Nat) (first : List WrittenSymbol) (stop : Nat)
    (later : List (List WrittenSymbol)) : Prop :=
  tokens.drop place = alternativesTokens (first :: later) ++ tokens.drop stop ∧
    ∀ token, tokens[stop]? = some token → token.symbol? = none

theorem SpansAlternatives.concat {place stop next : Nat} {first symbols : List WrittenSymbol}
    {later : List (List WrittenSymbol)} (spans : SpansAlternatives tokens place first stop later)
    (bar : tokens[stop]? = some .bar)
    (split : tokens.drop (stop + 1) = symbols.map symbolToken ++ tokens.drop next)
    (maximal : ∀ token, tokens[next]? = some token → token.symbol? = none) :
    SpansAlternatives tokens place first next (later ++ [symbols]) := by
  have further : alternativesTokens (first :: (later ++ [symbols])) =
      alternativesTokens (first :: later) ++ .bar :: symbols.map symbolToken :=
    alternativesTokens_concat (List.cons_ne_nil first later) symbols
  refine ⟨?_, maximal⟩
  rw [spans.1, drop_eq_cons bar, split, further, List.append_assoc, List.cons_append]

/-- Declarations with some texts lead to a place, and the last of them is complete. -/
def StandsBehind (tokens : List Token) (place : Nat) (texts : List (List String)) : Prop :=
  ∃ declarations : List (List WrittenSymbol),
    texts = declarations.map (·.map WrittenSymbol.text) ∧
      Reaches tokens place (Phase.behindDeclarations declarations) ∧
        (declarations ≠ [] → ∀ token, tokens[place]? = some token → token.symbol? = none)

/-- What the expression for a grammar comes to: a grammar up to the end of the tokens, or nothing,
with the furthest refusal where the reader by phases is stuck. -/
inductive GrammarOutcome (tokens : List Token) (attempt : Attempt WrittenGrammar) : Prop where
  | whole {grammar : WrittenGrammar} {stop : Nat} (reads : attempt.Reads grammar stop stop)
      (reaches : Reaches tokens stop (.betweenRules grammar)) (atEnd : tokens[stop]? = none)
  | stopped {stuck : Nat} (fails : attempt.FailsAt stuck) (isStuck : IsStuck tokens stuck)

namespace Phase

/-! ### Tokens without a next phase -/

variable {token : Token}

theorem next_afterLeft_eq_none {done : WrittenGrammar} {left : String} (noColon : token ≠ .colon) :
    (afterLeft done left).next token = none := by
  cases token <;> first | rfl | contradiction

theorem next_betweenRules_eq_none {done : WrittenGrammar} (noName : ¬∃ left, token = .name left) :
    (betweenRules done).next token = none := by
  cases token <;> first | rfl | exact absurd ⟨_, rfl⟩ noName

theorem next_inRule_eq_none {done : WrittenGrammar} {left : String}
    {complete : List (List WrittenSymbol)} {current : List WrittenSymbol}
    (noSymbol : token.symbol? = none) (noBar : token ≠ .bar) (noSemicolon : token ≠ .semicolon) :
    (inRule done left complete current).next token = none := by
  cases token <;> first | rfl | contradiction

theorem next_behindDeclarations_eq_none {declarations : List (List WrittenSymbol)}
    (noDeclare : token ≠ .declare) (noSplit : token ≠ .split)
    (noSymbol : declarations ≠ [] → token.symbol? = none) :
    (behindDeclarations declarations).next token = none := by
  cases declarations with
  | nil => cases token <;> first | rfl | contradiction
  | cons first later =>
      have notSymbol := noSymbol (List.cons_ne_nil _ _)
      cases token <;> first | rfl | contradiction

end Phase

namespace Combinators

variable {library : Combinators} (lawful : library.IsLawful)

include lawful

/-! ### Symbols -/

/-- A repetition of symbols takes all of them, and is refused the token behind the last. -/
theorem IsLawful.attempt_symbols {Value : Type} (tokens : List Token)
    (view : WrittenSymbol → Value) (least place : Nat) :
    ∃ symbols : List WrittenSymbol,
      tokens.drop place = symbols.map symbolToken ++ tokens.drop (place + symbols.length) ∧
        (∀ token, tokens[place + symbols.length]? = some token → token.symbol? = none) ∧
          library.attempt (library.repeated least (library.symbol view)) tokens place =
            ⟨if least ≤ symbols.length then some (symbols.map view, place + symbols.length)
              else none, [place + symbols.length]⟩ := by
  induction room : tokens.length - place generalizing least place with
  | zero =>
      have atEnd : tokens[place]? = none := List.getElem?_eq_none (by omega)
      have fails : library.attempt (library.symbol view) tokens place = ⟨none, [place]⟩ := by
        rw [symbol, lawful.attempt_select, atEnd, Option.bind_none]
      refine ⟨[], rfl, fun token atPlace => ?_, ?_⟩
      · exact absurd (atEnd.symm.trans atPlace) (by simp)
      · rw [lawful.attempt_repeated_of_none least _ tokens place (by rw [fails]), fails]
        simp
  | succ room inductionHypothesis =>
      have inside : place < tokens.length := by omega
      obtain ⟨token, atPlace⟩ : ∃ token, tokens[place]? = some token :=
        ⟨_, List.getElem?_eq_getElem inside⟩
      cases isSymbol : token.symbol? with
      | none =>
          have attempted : library.attempt (library.symbol view) tokens place =
              ⟨none, [place]⟩ := by
            rw [symbol, lawful.attempt_select, atPlace, Option.bind_some, isSymbol,
              Option.map_none]
          refine ⟨[], rfl, fun other atOther => ?_, ?_⟩
          · rw [List.length_nil, Nat.add_zero, atPlace] at atOther
            cases atOther
            exact isSymbol
          · rw [lawful.attempt_repeated_of_none least _ tokens place (by rw [attempted]), attempted]
            simp
      | some symbol =>
          have attempted : library.attempt (library.symbol view) tokens place =
              ⟨some (view symbol, place + 1), []⟩ := by
            rw [Combinators.symbol, lawful.attempt_select, atPlace, Option.bind_some, isSymbol,
              Option.map_some]
          have taken : (library.attempt (library.symbol view) tokens place).result =
              some (view symbol, place + 1) := by rw [attempted]
          obtain ⟨symbols, split, maximal, rest⟩ :=
            inductionHypothesis (least - 1) (place + 1) (by omega)
          have shifted : place + 1 + symbols.length = place + (symbol :: symbols).length := by
            rw [List.length_cons]
            omega
          rw [shifted] at split maximal rest
          refine ⟨symbol :: symbols, ?_, maximal, ?_⟩
          · rw [drop_eq_cons atPlace, split, eq_symbolToken isSymbol]
            rfl
          · rw [lawful.attempt_repeated_of_some least _ tokens place _ _ taken (Nat.lt_succ_self _)
              (by omega), Attempt.andThen_of_some taken, rest, attempted]
            have enough : least - 1 ≤ symbols.length ↔ least ≤ (symbol :: symbols).length := by
              rw [List.length_cons]
              omega
            simp only [enough, Attempt.map, List.nil_append]
            split <;> rfl

/-! ### Alternatives -/

theorem IsLawful.attempt_alternative (tokens : List Token) (place : Nat) :
    ∃ symbols : List WrittenSymbol,
      tokens.drop place = symbols.map symbolToken ++ tokens.drop (place + symbols.length) ∧
        (∀ token, tokens[place + symbols.length]? = some token → token.symbol? = none) ∧
          (library.attempt library.alternative tokens place).Reads symbols
            (place + symbols.length) (place + symbols.length) := by
  obtain ⟨symbols, split, maximal, attempted⟩ :=
    lawful.attempt_symbols tokens id 0 place
  rw [if_pos (Nat.zero_le _), List.map_id] at attempted
  refine ⟨symbols, split, maximal, ?_⟩
  rw [alternative, attempted]
  exact ⟨rfl, by simp⟩

/-- Alternatives from a place on never fail. They go up to a token that is neither a symbol nor a
bar. -/
theorem IsLawful.attempt_alternatives (tokens : List Token) (place : Nat) :
    ∃ first later stop, place ≤ stop ∧
      tokens.drop place = alternativesTokens (first :: later) ++ tokens.drop stop ∧
        (∀ token, tokens[stop]? = some token → token.symbol? = none ∧ token ≠ .bar) ∧
          (library.attempt (library.separatedBy library.alternative (library.word .bar)) tokens
            place).Reads (first :: later) stop stop := by
  obtain ⟨first, split, maximal, reads⟩ := lawful.attempt_alternative tokens place
  have each (stop : Nat) (later : List (List WrittenSymbol))
      (spans : SpansAlternatives tokens place first stop later) :
      ItemOutcome tokens (· = .bar) (fun _ => False) (SpansAlternatives tokens place first) stop
        later (library.attempt (library.ignoreThen (library.word .bar) library.alternative) tokens
          stop) := by
    rw [lawful.attempt_ignoreThen]
    by_cases bar : tokens[stop]? = some .bar
    · obtain ⟨symbols, splitBehind, maximalBehind, readsBehind⟩ :=
        lawful.attempt_alternative tokens (stop + 1)
      have inside := le_length_of_split (List.getElem?_eq_some_iff.mp bar).1 splitBehind
      exact .whole (by omega) inside
        (((lawful.word_reads bar).andThen readsBehind (by omega)).map _)
        (spans.concat bar splitBehind maximalBehind)
    · refine .absent ?_ ((lawful.word_fails bar).andThen.map _)
      rintro token atStop rfl
      exact bar atStop
  have begun : SpansAlternatives tokens place first (place + first.length) [] :=
    ⟨by rw [alternativesTokens_singleton, split], maximal⟩
  have outcome := lawful.repeated_outcome each begun
  cases outcome with
  | @closed later stop onward readsOn spans closed =>
      refine ⟨first, later, stop, by omega, spans.1,
        fun token atStop => ⟨spans.2 token atStop, closed token atStop⟩, ?_⟩
      rw [lawful.attempt_separatedBy_of_some _ _ _ _ _ _ reads.result_eq]
      exact (reads.andThen readsOn onward).map _
  | broken _ _ _ _ _ _ isStuck => exact isStuck.elim

/-! ### Rules -/

theorem IsLawful.rule_fails_unnamed {place : Nat}
    (unnamed : ∀ left, tokens[place]? ≠ some (.name left)) :
    (library.attempt library.rule tokens place).FailsAt place := by
  have nameFails : (library.attempt (library.select Token.name?) tokens place).FailsAt place := by
    apply lawful.select_fails
    intro token atPlace
    cases token <;> first | rfl | exact absurd atPlace (unnamed _)
  rw [rule, lawful.attempt_map, lawful.attempt_thenIgnore, lawful.attempt_andThen,
    lawful.attempt_thenIgnore]
  exact ((nameFails.andThen.map Prod.fst).andThen.andThen.map Prod.fst).map _

section Named

variable {place : Nat} {left : String} (named : tokens[place]? = some (.name left))

include named

theorem IsLawful.name_reads :
    (library.attempt (library.select Token.name?) tokens place).Reads left (place + 1) place :=
  lawful.select_reads named rfl

theorem IsLawful.rule_fails_behindName (other : tokens[place + 1]? ≠ some .colon) :
    (library.attempt library.rule tokens place).FailsAt (place + 1) := by
  have fails := (lawful.name_reads named).andThen_fails (lawful.word_fails other) (Nat.le_succ _)
  rw [rule, lawful.attempt_map, lawful.attempt_thenIgnore, lawful.attempt_andThen,
    lawful.attempt_thenIgnore]
  exact ((fails.map Prod.fst).andThen.andThen.map Prod.fst).map _

/-- Behind its colon a rule has alternatives, and is whole or not by what stands behind them. -/
theorem IsLawful.attempt_rule_behindColon (colon : tokens[place + 1]? = some .colon) :
    ∃ first later stop, place + 1 + 1 ≤ stop ∧
      tokens.drop (place + 1 + 1) = alternativesTokens (first :: later) ++ tokens.drop stop ∧
      (∀ token, tokens[stop]? = some token → token.symbol? = none ∧ token ≠ .bar) ∧
      (tokens[stop]? = some .semicolon →
        (library.attempt library.rule tokens place).Reads ⟨left, first :: later⟩ (stop + 1)
          (stop + 1)) ∧
      (tokens[stop]? ≠ some .semicolon →
        (library.attempt library.rule tokens place).FailsAt stop) := by
  have front := (lawful.name_reads named).andThen (lawful.word_reads colon) (Nat.le_succ _)
  obtain ⟨first, later, stop, onward, split, maximal, readsOn⟩ :=
    lawful.attempt_alternatives tokens (place + 1 + 1)
  have sides := (front.map Prod.fst).andThen readsOn (by omega)
  refine ⟨first, later, stop, onward, split, maximal, ?_, ?_⟩
  · intro semicolon
    have whole := sides.andThen (lawful.word_reads semicolon) (Nat.le_refl _)
    rw [rule, lawful.attempt_map, lawful.attempt_thenIgnore, lawful.attempt_andThen,
      lawful.attempt_thenIgnore]
    exact ((whole.map Prod.fst).map _).mono (Nat.le_succ _)
  · intro other
    have fails := sides.andThen_fails (lawful.word_fails other) (Nat.le_refl _)
    rw [rule, lawful.attempt_map, lawful.attempt_thenIgnore, lawful.attempt_andThen,
      lawful.attempt_thenIgnore]
    exact (fails.map Prod.fst).map _

end Named

/-- Behind rules with their declarations a rule is absent, broken off or whole. -/
theorem IsLawful.rule_outcome (declared : List String) (place : Nat) (rules : List WrittenRule)
    (reaches : Reaches tokens place (.betweenRules ⟨declared, rules⟩)) :
    ItemOutcome tokens (fun token => ∃ left, token = .name left) (IsStuck tokens)
      (fun place rules => Reaches tokens place (.betweenRules ⟨declared, rules⟩)) place rules
      (library.attempt library.rule tokens place) := by
  by_cases unnamed : ∀ left, tokens[place]? ≠ some (.name left)
  · refine .absent ?_ (lawful.rule_fails_unnamed unnamed)
    rintro token atPlace ⟨left, rfl⟩
    exact unnamed left atPlace
  · obtain ⟨left, named⟩ := not_forall_not.mp unnamed
    have reachesLeft := reaches.next named rfl
    by_cases colon : tokens[place + 1]? = some .colon
    · obtain ⟨first, later, stop, onward, split, maximal, whole, broken⟩ :=
        lawful.attempt_rule_behindColon named colon
      obtain ⟨front, last, sides, passes⟩ :=
        Phase.readOn_openAlternatives ⟨declared, rules⟩ left [] first later
      have reachesStop := (reachesLeft.next colon rfl).onward split passes
      by_cases semicolon : tokens[stop]? = some .semicolon
      · have inside : stop < tokens.length := (List.getElem?_eq_some_iff.mp semicolon).1
        have reachesRule := reachesStop.next semicolon rfl
        rw [← sides, List.nil_append] at reachesRule
        exact .whole (by omega) inside (whole semicolon) reachesRule
      · refine .broken named ⟨left, rfl⟩ (by omega) (broken semicolon)
          (reachesStop.isStuck rfl fun token atStop => ?_)
        obtain ⟨noSymbol, noBar⟩ := maximal token atStop
        exact Phase.next_inRule_eq_none noSymbol noBar (ne_of_atPlace atStop semicolon)
    · refine .broken named ⟨left, rfl⟩ (Nat.le_succ _) (lawful.rule_fails_behindName named colon)
        (reachesLeft.isStuck rfl fun token atNext => ?_)
      exact Phase.next_afterLeft_eq_none (ne_of_atPlace atNext colon)

/-! ### Declarations -/

theorem IsLawful.declaration_fails {place : Nat} (other : tokens[place]? ≠ some .declare) :
    (library.attempt library.declaration tokens place).FailsAt place := by
  rw [declaration, lawful.attempt_ignoreThen]
  exact (lawful.word_fails other).andThen.map _

/-- Behind its first token a declaration takes all symbols, and has to have one. -/
theorem IsLawful.attempt_declaration {place : Nat} (declares : tokens[place]? = some .declare) :
    ∃ symbols next, next = place + 1 + symbols.length ∧ next ≤ tokens.length ∧
      tokens.drop (place + 1) = symbols.map symbolToken ++ tokens.drop next ∧
      (∀ token, tokens[next]? = some token → token.symbol? = none) ∧
      (symbols ≠ [] → (library.attempt library.declaration tokens place).Reads
        (symbols.map WrittenSymbol.text) next next) ∧
      (symbols = [] → (library.attempt library.declaration tokens place).FailsAt next) := by
  obtain ⟨symbols, split, maximal, attempted⟩ :=
    lawful.attempt_symbols tokens WrittenSymbol.text 1 (place + 1)
  have inside := le_length_of_split (List.getElem?_eq_some_iff.mp declares).1 split
  have wordReads := lawful.word_reads declares
  refine ⟨symbols, _, rfl, inside, split, maximal, ?_, ?_⟩
  · intro nonempty
    have enough : 1 ≤ symbols.length := List.length_pos_iff.mpr nonempty
    have symbolsRead : (library.attempt (library.repeated 1 (library.symbol WrittenSymbol.text))
        tokens (place + 1)).Reads (symbols.map WrittenSymbol.text)
          (place + 1 + symbols.length) (place + 1 + symbols.length) := by
      rw [attempted, if_pos enough]
      exact ⟨rfl, by simp⟩
    rw [declaration, lawful.attempt_ignoreThen]
    exact (wordReads.andThen symbolsRead (by omega)).map _
  · rintro rfl
    have symbolsFail : (library.attempt (library.repeated 1 (library.symbol WrittenSymbol.text))
        tokens (place + 1)).FailsAt (place + 1) := by
      rw [attempted]
      exact ⟨rfl, List.mem_singleton.mpr rfl, by simp⟩
    rw [declaration, lawful.attempt_ignoreThen]
    exact (wordReads.andThen_fails symbolsFail (Nat.le_succ _)).map _

/-- Behind declarations another one is absent, broken off or whole. -/
theorem IsLawful.declaration_outcome (place : Nat) (texts : List (List String))
    (stands : StandsBehind tokens place texts) :
    ItemOutcome tokens (· = .declare) (IsStuck tokens) (StandsBehind tokens) place texts
      (library.attempt library.declaration tokens place) := by
  by_cases declares : tokens[place]? = some .declare
  · obtain ⟨declarations, rfl, reaches, -⟩ := stands
    have reachesWord := reaches.next declares (Phase.next_behindDeclarations_declare declarations)
    obtain ⟨symbols, next, behind, inside, split, maximal, reads, fails⟩ :=
      lawful.attempt_declaration declares
    by_cases empty : symbols = []
    · subst empty
      subst behind
      refine .broken declares rfl (Nat.le_succ _) (fails rfl) (reachesWord.isStuck rfl ?_)
      intro token atNext
      rw [Phase.next, maximal token atNext, Option.map_none]
    · have reachesSymbols := reachesWord.onward split (Phase.readOn_declaring _ empty)
      rw [← Phase.behindDeclarations_concat] at reachesSymbols
      exact .whole (by omega) inside (reads empty) ⟨declarations ++ [symbols],
        by rw [List.map_append, List.map_singleton], reachesSymbols, fun _ => maximal⟩
  · refine .absent ?_ (lawful.declaration_fails declares)
    rintro token atPlace rfl
    exact declares atPlace

/-! ### The grammar -/

/-- The rules behind the split, up to the end. -/
theorem IsLawful.rules_outcome {front : Attempt (List (List String))} {place furthest : Nat}
    {texts : List (List String)} (reads : front.Reads texts place furthest)
    (le : furthest ≤ place) (reaches : Reaches tokens place (.betweenRules ⟨texts.flatten, []⟩)) :
    GrammarOutcome tokens
      ((((front.andThen (library.attempt (library.repeated 0 library.rule) tokens)).andThen
        (library.attempt library.endOfInput tokens)).map Prod.fst).map
          fun (declarations, rules) => ⟨declarations.flatten, rules⟩) := by
  have outcome := lawful.repeated_outcome (lawful.rule_outcome texts.flatten) reaches
  cases outcome with
  | @closed rules stop onward readsOn reachesStop closed =>
      have rulesRead := reads.andThen readsOn (by omega)
      rw [List.nil_append] at reachesStop
      by_cases atEnd : tokens[stop]? = none
      · have wholeReads := rulesRead.andThen (lawful.endOfInput_reads atEnd) (Nat.le_refl _)
        exact .whole ((wholeReads.map Prod.fst).map _) reachesStop atEnd
      · have wholeFails := rulesRead.andThen_fails (lawful.endOfInput_fails atEnd) (Nat.le_refl _)
        refine .stopped ((wholeFails.map Prod.fst).map _) ?_
        obtain ⟨token, atStop⟩ := Option.ne_none_iff_exists'.mp atEnd
        exact .refused reachesStop atStop
          (Phase.next_betweenRules_eq_none (closed token atStop))
  | @broken rules token stop stuck onward readsOn refused opened opens behind isStuck =>
      have rulesRead := reads.andThen readsOn (by omega)
      have notEnd : tokens[stop]? ≠ none := by simp [opened]
      have wholeFails := rulesRead.andThen_fails_before
        (reads.mem_refusals_andThen refused) (lawful.endOfInput_fails notEnd) behind
      exact .stopped ((wholeFails.map Prod.fst).map _) isStuck

theorem IsLawful.grammar_outcome (tokens : List Token) :
    GrammarOutcome tokens (library.attempt library.grammar tokens 0) := by
  rw [grammar, lawful.attempt_map, lawful.attempt_thenIgnore, lawful.attempt_andThen,
    lawful.attempt_thenIgnore]
  have begun : StandsBehind tokens 0 [] := ⟨[], rfl, rfl, fun nonempty => absurd rfl nonempty⟩
  have outcome := lawful.repeated_outcome lawful.declaration_outcome begun
  cases outcome with
  | @closed texts stop onward reads stands closed =>
      obtain ⟨declarations, joined, reaches, complete⟩ := stands
      rw [List.nil_append] at joined
      by_cases split : tokens[stop]? = some .split
      · have splitReads := reads.andThen (lawful.word_reads split) (Nat.le_refl _)
        have reachesSplit :=
          reaches.next split (Phase.next_behindDeclarations_split declarations)
        rw [List.map_flatten, ← joined] at reachesSplit
        exact lawful.rules_outcome (splitReads.map Prod.fst) (Nat.le_succ _) reachesSplit
      · have splitFails := reads.andThen_fails (lawful.word_fails split) (Nat.le_refl _)
        refine .stopped (((splitFails.map Prod.fst).andThen.andThen.map Prod.fst).map _) ?_
        refine reaches.isStuck (by cases declarations <;> rfl) ?_
        intro token atStop
        exact Phase.next_behindDeclarations_eq_none (closed token atStop)
          (ne_of_atPlace atStop split) fun nonempty => complete nonempty token atStop
  | @broken texts token stop stuck onward reads refused opened opens behind isStuck =>
      have noSplit : tokens[stop]? ≠ some .split := by
        rw [opened, opens]
        simp
      have splitFails := reads.andThen_fails_before refused (lawful.word_fails noSplit) behind
      exact .stopped (((splitFails.map Prod.fst).andThen.andThen.map Prod.fst).map _) isStuck

/-- Either a whole grammar is parsed, or the first error is where the reader by phases is stuck. -/
theorem IsLawful.parse_grammar (tokens : List Token) :
    (∃ grammar, IsWritten tokens grammar ∧ library.parse library.grammar tokens = .ok grammar) ∨
      ∃ stuck others, IsStuck tokens stuck ∧
        library.parse library.grammar tokens = .error (⟨tokens[stuck]?, stuck⟩ :: others) := by
  have outcome := lawful.grammar_outcome tokens
  cases outcome with
  | @whole grammar stop reads reaches atEnd =>
      refine .inl ⟨grammar, ?_, ?_⟩
      · have written := isWritten_iff.mpr reaches
        rwa [List.take_of_length_le (List.getElem?_eq_none_iff.mp atEnd)] at written
      · have wholeReads := reads.andThen (lawful.endOfInput_reads atEnd) (Nat.le_refl _)
        apply lawful.parse_of_some _ _ _ stop
        rw [lawful.attempt_thenIgnore]
        exact (wholeReads.map Prod.fst).result_eq
  | @stopped stuck fails isStuck =>
      have wholeFails :
          (library.attempt (library.thenIgnore library.grammar library.endOfInput) tokens
            0).FailsAt stuck := by
        rw [lawful.attempt_thenIgnore]
        exact fails.andThen.map Prod.fst
      obtain ⟨others, reported⟩ := lawful.parse_of_none _ _ stuck wholeFails.result_eq
        wholeFails.refused wholeFails.bounded
      exact .inr ⟨stuck, others, isStuck, reported⟩

end Combinators

/-! ### The answer -/

variable {tokenized : Tokenized} {place : Nat}

theorem Tokenized.getElem?_words (tokenized : Tokenized) (place : Nat) :
    tokenized.words[place]? = tokenized.tokens[place]?.map LocatedToken.token := by
  rw [words, List.getElem?_map]

/-- Both readers show an error in the same words. -/
theorem shown_unexpected (line : Nat) (found : Option Token) :
    SyntaxError.shown ⟨line, unexpectedMessage found⟩ =
      (TextError.unexpected line found).message := by
  cases found with
  | none =>
      show "line " ++ toString line ++ ": " ++ "unexpected end of input" =
        "line " ++ toString line ++ ": unexpected end of input"
      rw [String.append_assoc]
      rfl
  | some token =>
      show "line " ++ toString line ++ ": " ++ ("unexpected `" ++ token.text ++ "`") =
        "line " ++ toString line ++ ": unexpected `" ++ token.text ++ "`"
      simp only [String.append_assoc, ← String.toList_inj, String.toList_append]
      rfl

/-- The error for a place at which the reader by phases is stuck is an answer. -/
theorem IsStuck.isAnswer (isStuck : IsStuck tokenized.words place) (others : List Failure) :
    IsAnswer tokenized (fun located => ⟨located.line, unexpectedMessage (some located.token)⟩)
      ⟨tokenized.lastLine, unexpectedMessage none⟩
      (.error (tokenized.syntaxError (⟨tokenized.words[place]?, place⟩ :: others))) := by
  cases isStuck with
  | refused reaches atPlace stuck =>
      rw [tokenized.getElem?_words] at atPlace
      obtain ⟨located, atLocated, rfl⟩ := Option.map_eq_some_iff.mp atPlace
      have onLine : tokenized.lineOf place = located.line := by rw [Tokenized.lineOf, atLocated]
      rw [Tokenized.syntaxError, tokenized.getElem?_words, atPlace, onLine]
      exact .stopped atLocated (WrittenGrammar.isMisfit_of_stopped atLocated reaches stuck)
  | @ended phase reaches atEnd unfinished =>
      have whole : tokenized.words.take place = tokenized.words :=
        List.take_of_length_le (List.getElem?_eq_none_iff.mp atEnd)
      rw [Reaches, whole] at reaches
      have behind : tokenized.tokens[place]? = none := by
        rwa [tokenized.getElem?_words, Option.map_eq_none_iff] at atEnd
      have onLine : tokenized.lineOf place = tokenized.lastLine := by
        rw [Tokenized.lineOf, behind]
      rw [Tokenized.syntaxError, atEnd, onLine]
      exact .ended (begins_iff.mpr ⟨phase, reaches⟩)
        (WrittenGrammar.not_isWritten_of_unfinished reaches unfinished)

namespace Combinators

variable {library : Combinators}

theorem IsLawful.isAnswer_readGrammar (lawful : library.IsLawful) (tokenized : Tokenized) :
    IsAnswer tokenized (fun located => ⟨located.line, unexpectedMessage (some located.token)⟩)
      ⟨tokenized.lastLine, unexpectedMessage none⟩ (library.readGrammar tokenized) := by
  unfold readGrammar
  rcases lawful.parse_grammar tokenized.words with
    ⟨grammar, written, parsed⟩ | ⟨stuck, others, isStuck, refused⟩
  · rw [Tokenized.words] at parsed
    rw [parsed]
    exact .whole written
  · rw [Tokenized.words] at refused
    rw [refused]
    exact isStuck.isAnswer others

/-- By the expression for a grammar exactly the written forms of grammars are read, with the
grammar written. The error for any other tokens is at the first one with which no written form can
go on, or at the end if the tokens begin a written form; it names the token, and its line or the
last line. So does the reader that goes from phase to phase. -/
theorem readGrammar_exact (lawful : library.IsLawful) (tokenized : Tokenized) :
    (∀ grammar, library.readGrammar tokenized = .ok grammar ↔
        IsWritten tokenized.words grammar) ∧
      (∀ error, library.readGrammar tokenized = .error error ↔
        (∃ place located, tokenized.tokens[place]? = some located ∧
            IsMisfit tokenized.words place ∧
            error = ⟨located.line, s!"unexpected `{located.token.text}`"⟩) ∨
          (Begins tokenized.words ∧ (∀ grammar, ¬IsWritten tokenized.words grammar) ∧
            error = ⟨tokenized.lastLine, "unexpected end of input"⟩)) ∧
      (library.readGrammar tokenized).mapError (fun error => (error.line, error.shown)) =
        (WrittenGrammar.ofTokens tokenized).mapError fun error => (error.line, error.message) := by
  have answer := lawful.isAnswer_readGrammar tokenized
  refine ⟨answer.eq_ok_iff, answer.eq_error_iff, ?_⟩
  have shown := answer.mapError fun error => (error.line, error.shown)
  have shownByPhases := (WrittenGrammar.isAnswer_ofTokens tokenized).mapError
    fun error => (error.line, error.message)
  simp only [Function.comp_def, shown_unexpected] at shown
  exact shown.unique shownByPhases

/-- A rule that begins on line 2 is given up at its second colon, on line 3. A declaration that
declares nothing is given up where the text ends. -/
theorem readGrammar_exact_backtracking :
    backtracking.IsLawful ∧
      backtracking.readGrammar
          ⟨[⟨.split, 1⟩, ⟨.name "S", 2⟩, ⟨.colon, 2⟩, ⟨.name "T", 3⟩, ⟨.colon, 3⟩], 4⟩ =
        .error ⟨3, "unexpected `:`"⟩ ∧
      backtracking.readGrammar ⟨[⟨.declare, 1⟩], 2⟩ = .error ⟨2, "unexpected end of input"⟩ := by
  refine ⟨isLawful_backtracking, ?_, ?_⟩
  · refine ((readGrammar_exact isLawful_backtracking _).2.1 _).mpr (.inl ⟨4, _, rfl, ?_, rfl⟩)
    exact WrittenGrammar.isMisfit_of_stopped rfl rfl rfl
  · refine ((readGrammar_exact isLawful_backtracking _).2.1 _).mpr (.inr ⟨?_, ?_, rfl⟩)
    · exact begins_iff.mpr ⟨.declaring [], rfl⟩
    · exact WrittenGrammar.not_isWritten_of_unfinished rfl rfl

end Combinators

end Predictive.GrammarText
