import Mathlib.Data.List.Induction
import Predictive.GrammarText.Written

/-!
Contract: the reader by phases reads tokens as a grammar exactly if they are the written form of
one, and the first token that no grammar can go on with is the one it reports.

Owns: the written form of a grammar, the beginnings of written forms, the answers to tokens, and
the phase in which a beginning leaves the reader.
Does not own: how a text falls into tokens, what a written grammar means, and the expression for
grammars over parser combinators.

The written form does not know of phases. `Phase.Describes` says which tokens lead to a
phase; since every phase can be closed, the tokens that lead to some phase are exactly the
beginnings of written forms (`begins_iff`).
-/

namespace Predictive.GrammarText

/-! ### The written form -/

/-- The token of a symbol, names and literals apart. -/
def symbolToken : WrittenSymbol → Token
  | .name text => .name text
  | .literal text => .literal text

def declarationTokens (symbols : List WrittenSymbol) : List Token :=
  .declare :: symbols.map symbolToken

/-- The symbols of alternatives with a bar between one alternative and the next. -/
def alternativesTokens (alternatives : List (List WrittenSymbol)) : List Token :=
  [Token.bar].intercalate (alternatives.map (·.map symbolToken))

def WrittenRule.tokens (rule : WrittenRule) : List Token :=
  .name rule.left :: .colon :: (alternativesTokens rule.alternatives ++ [.semicolon])

/-- Whether tokens are the written form of a grammar: declarations of at least one symbol
each, the split, then the rules, each with at least one alternative. -/
def IsWritten (tokens : List Token) (grammar : WrittenGrammar) : Prop :=
  ∃ declarations : List (List WrittenSymbol),
    (∀ symbols ∈ declarations, symbols ≠ []) ∧
      (∀ rule ∈ grammar.rules, rule.alternatives ≠ []) ∧
      grammar.declared = declarations.flatten.map WrittenSymbol.text ∧
      tokens = declarations.flatMap declarationTokens
        ++ .split :: grammar.rules.flatMap WrittenRule.tokens

/-- Whether tokens can be continued to the written form of a grammar. -/
def Begins (tokens : List Token) : Prop :=
  ∃ more grammar, IsWritten (tokens ++ more) grammar

/-- Whether the token at a place is the first with which no written form can go on. -/
structure IsMisfit (tokens : List Token) (place : Nat) : Prop where
  begins : ∀ earlier ≤ place, Begins (tokens.take earlier)
  stuck : ¬Begins (tokens.take (place + 1))

theorem Begins.of_append {front back : List Token} (begins : Begins (front ++ back)) :
    Begins front := by
  obtain ⟨more, grammar, written⟩ := begins
  exact ⟨back ++ more, grammar, by rwa [← List.append_assoc]⟩

theorem Begins.take {tokens : List Token} (begins : Begins tokens) (count : Nat) :
    Begins (tokens.take count) := by
  rw [← List.take_append_drop count tokens] at begins
  exact begins.of_append

theorem IsMisfit.of_begins {tokens : List Token} {place : Nat}
    (begins : Begins (tokens.take place)) (stuck : ¬Begins (tokens.take (place + 1))) :
    IsMisfit tokens place := by
  refine ⟨?_, stuck⟩
  intro earlier before
  have shorter := begins.take earlier
  rwa [List.take_take, Nat.min_eq_left before] at shorter

theorem IsMisfit.not_begins {tokens : List Token} {place : Nat} (misfit : IsMisfit tokens place) :
    ¬Begins tokens :=
  fun begins => misfit.stuck (begins.take _)

theorem IsMisfit.not_isWritten {tokens : List Token} {place : Nat} (misfit : IsMisfit tokens place)
    (grammar : WrittenGrammar) : ¬IsWritten tokens grammar :=
  fun written => misfit.not_begins ⟨[], grammar, by rwa [List.append_nil]⟩

theorem IsMisfit.unique {tokens : List Token} {first second : Nat}
    (firstMisfit : IsMisfit tokens first) (secondMisfit : IsMisfit tokens second) :
    first = second := by
  rcases Nat.lt_trichotomy first second with before | same | behind
  · exact absurd (secondMisfit.begins _ before) firstMisfit.stuck
  · exact same
  · exact absurd (firstMisfit.begins _ behind) secondMisfit.stuck

theorem symbol?_symbolToken (symbol : WrittenSymbol) :
    (symbolToken symbol).symbol? = some symbol := by
  cases symbol <;> rfl

theorem eq_symbolToken {token : Token} {symbol : WrittenSymbol}
    (isSymbol : token.symbol? = some symbol) : token = symbolToken symbol := by
  cases token <;> cases isSymbol <;> rfl

theorem alternativesTokens_cons_cons (first second : List WrittenSymbol)
    (later : List (List WrittenSymbol)) :
    alternativesTokens (first :: second :: later) =
      first.map symbolToken ++ .bar :: alternativesTokens (second :: later) := by
  simp [alternativesTokens, List.intercalate]

theorem alternativesTokens_singleton (only : List WrittenSymbol) :
    alternativesTokens [only] = only.map symbolToken := by
  simp [alternativesTokens, List.intercalate]

/-- A further alternative stands behind a bar. -/
theorem alternativesTokens_concat {complete : List (List WrittenSymbol)}
    (some_alternative : complete ≠ []) (last : List WrittenSymbol) :
    alternativesTokens (complete ++ [last]) =
      alternativesTokens complete ++ .bar :: last.map symbolToken := by
  induction complete with
  | nil => exact absurd rfl some_alternative
  | cons first later inductionHypothesis =>
      cases later with
      | nil =>
          rw [List.singleton_append, alternativesTokens_cons_cons, alternativesTokens_singleton,
            alternativesTokens_singleton]
      | cons second later =>
          rw [List.cons_append, List.cons_append, alternativesTokens_cons_cons,
            ← List.cons_append, inductionHypothesis (List.cons_ne_nil _ _),
            alternativesTokens_cons_cons, List.append_assoc, List.cons_append]

/-- A further symbol belongs to the last alternative. -/
theorem alternativesTokens_snoc (complete : List (List WrittenSymbol))
    (current : List WrittenSymbol) (symbol : WrittenSymbol) :
    alternativesTokens (complete ++ [current ++ [symbol]]) =
      alternativesTokens (complete ++ [current]) ++ [symbolToken symbol] := by
  cases complete with
  | nil =>
      rw [List.nil_append, List.nil_append, alternativesTokens_singleton,
        alternativesTokens_singleton, List.map_append, List.map_singleton]
  | cons first later =>
      have some_alternative : first :: later ≠ [] := List.cons_ne_nil _ _
      rw [alternativesTokens_concat some_alternative, alternativesTokens_concat some_alternative,
        List.map_append, List.append_assoc, List.cons_append, List.map_singleton]

theorem IsWritten.declarations (declarations : List (List WrittenSymbol))
    (nonempty : ∀ symbols ∈ declarations, symbols ≠ []) :
    IsWritten (declarations.flatMap declarationTokens ++ [.split])
      ⟨declarations.flatten.map WrittenSymbol.text, []⟩ :=
  ⟨declarations, nonempty, by simp, rfl, rfl⟩

theorem IsWritten.concat {tokens : List Token} {grammar : WrittenGrammar}
    (written : IsWritten tokens grammar) (rule : WrittenRule)
    (some_alternative : rule.alternatives ≠ []) :
    IsWritten (tokens ++ rule.tokens) { grammar with rules := grammar.rules ++ [rule] } := by
  obtain ⟨declarations, nonempty, alternatives, declared, rfl⟩ := written
  refine ⟨declarations, nonempty, ?_, declared, ?_⟩
  · intro other member
    rcases List.mem_append.mp member with earlier | last
    · exact alternatives other earlier
    · rwa [List.mem_singleton.mp last]
  · simp only [List.flatMap_append, List.flatMap_singleton, List.append_assoc, List.cons_append]

namespace Phase

/-! ### Reading a written form -/

/-- The phase after some more tokens, if each of them has a next phase. -/
def readOn : Phase → List Token → Option Phase
  | phase, [] => some phase
  | phase, token :: rest => (phase.next token).bind (readOn · rest)

theorem readOn_append (phase : Phase) (front back : List Token) :
    phase.readOn (front ++ back) = (phase.readOn front).bind (readOn · back) := by
  induction front generalizing phase with
  | nil => rfl
  | cons token front inductionHypothesis =>
      rw [List.cons_append, readOn, readOn, Option.bind_assoc]
      congr 1
      funext later
      exact inductionHypothesis later

theorem readOn_singleton (phase : Phase) (token : Token) :
    phase.readOn [token] = phase.next token := by
  rw [readOn]
  cases phase.next token <;> rfl

/-- The phase behind complete declarations. -/
def behindDeclarations : List (List WrittenSymbol) → Phase
  | [] => .opening
  | first :: later => .listing ((first :: later).flatten.map WrittenSymbol.text)

theorem next_behindDeclarations_declare (declarations : List (List WrittenSymbol)) :
    (behindDeclarations declarations).next .declare =
      some (.declaring (declarations.flatten.map WrittenSymbol.text)) := by
  cases declarations <;> rfl

theorem next_behindDeclarations_split (declarations : List (List WrittenSymbol)) :
    (behindDeclarations declarations).next .split =
      some (.betweenRules ⟨declarations.flatten.map WrittenSymbol.text, []⟩) := by
  cases declarations <;> rfl

theorem behindDeclarations_concat (declarations : List (List WrittenSymbol))
    (symbols : List WrittenSymbol) :
    behindDeclarations (declarations ++ [symbols]) =
      .listing (declarations.flatten.map WrittenSymbol.text ++ symbols.map WrittenSymbol.text) := by
  cases declarations <;> simp [behindDeclarations]

theorem readOn_listing (declared : List String) (symbols : List WrittenSymbol) :
    (listing declared).readOn (symbols.map symbolToken) =
      some (.listing (declared ++ symbols.map WrittenSymbol.text)) := by
  induction symbols generalizing declared with
  | nil => simp [readOn]
  | cons symbol symbols inductionHypothesis =>
      have onward : (listing declared).next (symbolToken symbol) =
          some (.listing (declared ++ [symbol.text])) := by
        cases symbol <;> rfl
      rw [List.map_cons, readOn, onward, Option.bind_some, inductionHypothesis, List.map_cons,
        List.append_assoc, List.singleton_append]

theorem readOn_declaring (declared : List String) {symbols : List WrittenSymbol}
    (nonempty : symbols ≠ []) : (declaring declared).readOn (symbols.map symbolToken) =
      some (.listing (declared ++ symbols.map WrittenSymbol.text)) := by
  cases symbols with
  | nil => exact absurd rfl nonempty
  | cons symbol symbols =>
      rw [List.map_cons, readOn, next, symbol?_symbolToken, Option.map_some, Option.bind_some,
        readOn_listing, List.map_cons, List.append_assoc, List.singleton_append]

theorem readOn_declarations (declarations : List (List WrittenSymbol))
    (nonempty : ∀ symbols ∈ declarations, symbols ≠ []) :
    opening.readOn (declarations.flatMap declarationTokens) =
      some (behindDeclarations declarations) := by
  induction declarations using List.reverseRecOn with
  | nil => rfl
  | append_singleton front symbols inductionHypothesis =>
      have earlier := inductionHypothesis fun other member => nonempty other (by simp [member])
      rw [List.flatMap_append, readOn_append, earlier, Option.bind_some, List.flatMap_singleton,
        declarationTokens, readOn, next_behindDeclarations_declare, Option.bind_some,
        readOn_declaring _ (nonempty symbols (by simp)), behindDeclarations_concat]

theorem readOn_inRule (done : WrittenGrammar) (left : String)
    (complete : List (List WrittenSymbol)) (current symbols : List WrittenSymbol) :
    (inRule done left complete current).readOn (symbols.map symbolToken) =
      some (.inRule done left complete (current ++ symbols)) := by
  induction symbols generalizing current with
  | nil => simp [readOn]
  | cons symbol symbols inductionHypothesis =>
      have onward : (inRule done left complete current).next (symbolToken symbol) =
          some (.inRule done left complete (current ++ [symbol])) := by
        cases symbol <;> rfl
      rw [List.map_cons, readOn, onward, Option.bind_some, inductionHypothesis,
        List.append_assoc, List.singleton_append]

theorem readOn_alternatives (done : WrittenGrammar) (left : String)
    (complete : List (List WrittenSymbol)) (first : List WrittenSymbol)
    (later : List (List WrittenSymbol)) :
    (inRule done left complete []).readOn
        (alternativesTokens (first :: later) ++ [.semicolon]) =
      some (.betweenRules { done with
        rules := done.rules ++ [⟨left, complete ++ first :: later⟩] }) := by
  induction later generalizing complete first with
  | nil =>
      rw [alternativesTokens_singleton, readOn_append, readOn_inRule, Option.bind_some]
      rfl
  | cons second later inductionHypothesis =>
      have bar : (inRule done left complete first).next .bar =
          some (.inRule done left (complete ++ [first]) []) := rfl
      rw [alternativesTokens_cons_cons, List.append_assoc, readOn_append, readOn_inRule,
        List.nil_append, Option.bind_some, List.cons_append, readOn, bar, Option.bind_some,
        inductionHypothesis, List.append_assoc, List.singleton_append]

/-- Alternatives that are not closed yet lead to their last symbol. -/
theorem readOn_openAlternatives (done : WrittenGrammar) (left : String)
    (complete : List (List WrittenSymbol)) (first : List WrittenSymbol)
    (later : List (List WrittenSymbol)) :
    ∃ front last, complete ++ first :: later = front ++ [last] ∧
      (inRule done left complete []).readOn (alternativesTokens (first :: later)) =
        some (.inRule done left front last) := by
  induction later generalizing complete first with
  | nil =>
      refine ⟨complete, first, rfl, ?_⟩
      rw [alternativesTokens_singleton, readOn_inRule, List.nil_append]
  | cons second later inductionHypothesis =>
      obtain ⟨front, last, whole, onward⟩ := inductionHypothesis (complete ++ [first]) second
      have bar : (inRule done left complete first).next .bar =
          some (.inRule done left (complete ++ [first]) []) := rfl
      refine ⟨front, last, by rw [← whole, List.append_assoc, List.singleton_append], ?_⟩
      rw [alternativesTokens_cons_cons, readOn_append, readOn_inRule, List.nil_append,
        Option.bind_some, readOn, bar, Option.bind_some, onward]

theorem readOn_rule (done : WrittenGrammar) {rule : WrittenRule}
    (some_alternative : rule.alternatives ≠ []) : (betweenRules done).readOn rule.tokens =
      some (.betweenRules { done with rules := done.rules ++ [rule] }) := by
  obtain ⟨left, alternatives⟩ := rule
  cases alternatives with
  | nil => exact absurd rfl some_alternative
  | cons first later => exact readOn_alternatives done left [] first later

theorem readOn_rules (done : WrittenGrammar) (rules : List WrittenRule)
    (alternatives : ∀ rule ∈ rules, rule.alternatives ≠ []) :
    (betweenRules done).readOn (rules.flatMap WrittenRule.tokens) =
      some (.betweenRules { done with rules := done.rules ++ rules }) := by
  induction rules generalizing done with
  | nil => simp [readOn]
  | cons rule rules inductionHypothesis =>
      rw [List.flatMap_cons, readOn_append, readOn_rule done (alternatives rule (by simp)),
        Option.bind_some, inductionHypothesis _ fun other member =>
          alternatives other (List.mem_cons_of_mem rule member)]
      simp only [List.append_assoc, List.singleton_append]

theorem readOn_of_isWritten {tokens : List Token} {grammar : WrittenGrammar}
    (written : IsWritten tokens grammar) :
    opening.readOn tokens = some (.betweenRules grammar) := by
  obtain ⟨declared, rules⟩ := grammar
  obtain ⟨declarations, nonempty, alternatives, rfl, rfl⟩ := written
  rw [readOn_append, readOn_declarations declarations nonempty, Option.bind_some, readOn,
    next_behindDeclarations_split, Option.bind_some, readOn_rules _ rules alternatives]
  rfl

/-! ### What the tokens read so far are -/

/-- Whether some tokens are those that lead from the opening to a phase. -/
def Describes (tokens : List Token) : Phase → Prop
  | .opening => tokens = []
  | .declaring declared => ∃ declarations : List (List WrittenSymbol),
      (∀ symbols ∈ declarations, symbols ≠ []) ∧
        declared = declarations.flatten.map WrittenSymbol.text ∧
        tokens = declarations.flatMap declarationTokens ++ [.declare]
  | .listing declared => ∃ declarations last,
      (∀ symbols ∈ declarations ++ [last], symbols ≠ []) ∧
        declared = (declarations ++ [last]).flatten.map WrittenSymbol.text ∧
        tokens = (declarations ++ [last]).flatMap declarationTokens
  | .betweenRules done => IsWritten tokens done
  | .afterLeft done left => ∃ front, IsWritten front done ∧ tokens = front ++ [.name left]
  | .inRule done left complete current => ∃ front, IsWritten front done ∧
      tokens = front ++ .name left :: .colon :: alternativesTokens (complete ++ [current])

theorem Describes.symbol_listing {declared : List String} {tokens : List Token}
    (describes : (listing declared).Describes tokens) (symbol : WrittenSymbol) :
    (listing (declared ++ [symbol.text])).Describes (tokens ++ [symbolToken symbol]) := by
  obtain ⟨declarations, last, nonempty, rfl, rfl⟩ := describes
  refine ⟨declarations, last ++ [symbol], ?_, by simp, by simp [declarationTokens]⟩
  intro symbols member
  rcases List.mem_append.mp member with earlier | extended
  · exact nonempty symbols (List.mem_append_left _ earlier)
  · rw [List.mem_singleton.mp extended]
    exact List.append_ne_nil_of_right_ne_nil _ (List.cons_ne_nil _ _)

theorem Describes.next_opening {later : Phase} {tokens : List Token} {token : Token}
    (describes : opening.Describes tokens) (onward : opening.next token = some later) :
    later.Describes (tokens ++ [token]) := by
  obtain rfl : tokens = [] := describes
  cases token <;> cases onward
  case declare => exact ⟨[], by simp, rfl, rfl⟩
  case split => exact .declarations [] (by simp)

theorem Describes.next_declaring {declared : List String} {later : Phase} {tokens : List Token}
    {token : Token} (describes : (declaring declared).Describes tokens)
    (onward : (declaring declared).next token = some later) :
    later.Describes (tokens ++ [token]) := by
  obtain ⟨declarations, nonempty, rfl, rfl⟩ := describes
  obtain ⟨symbol, isSymbol, rfl⟩ := Option.map_eq_some_iff.mp onward
  rw [eq_symbolToken isSymbol]
  refine ⟨declarations, [symbol], ?_, by simp, by simp [declarationTokens]⟩
  intro symbols member
  rcases List.mem_append.mp member with earlier | last
  · exact nonempty symbols earlier
  · rw [List.mem_singleton.mp last]
    exact List.cons_ne_nil _ _

theorem Describes.next_listing {declared : List String} {later : Phase} {tokens : List Token}
    {token : Token} (describes : (listing declared).Describes tokens)
    (onward : (listing declared).next token = some later) :
    later.Describes (tokens ++ [token]) := by
  cases token <;> cases onward
  case declare =>
      obtain ⟨declarations, last, nonempty, rfl, rfl⟩ := describes
      exact ⟨declarations ++ [last], nonempty, rfl, rfl⟩
  case split =>
      obtain ⟨declarations, last, nonempty, rfl, rfl⟩ := describes
      exact .declarations (declarations ++ [last]) nonempty
  case name text => exact describes.symbol_listing (.name text)
  case literal text => exact describes.symbol_listing (.literal text)

theorem Describes.symbol_inRule {done : WrittenGrammar} {left : String}
    {complete : List (List WrittenSymbol)} {current : List WrittenSymbol} {tokens : List Token}
    (describes : (inRule done left complete current).Describes tokens) (symbol : WrittenSymbol) :
    (inRule done left complete (current ++ [symbol])).Describes
      (tokens ++ [symbolToken symbol]) := by
  obtain ⟨front, written, rfl⟩ := describes
  refine ⟨front, written, ?_⟩
  rw [alternativesTokens_snoc, List.append_assoc, List.cons_append, List.cons_append]

theorem Describes.next_inRule {done : WrittenGrammar} {left : String}
    {complete : List (List WrittenSymbol)} {current : List WrittenSymbol} {later : Phase}
    {tokens : List Token} {token : Token}
    (describes : (inRule done left complete current).Describes tokens)
    (onward : (inRule done left complete current).next token = some later) :
    later.Describes (tokens ++ [token]) := by
  cases token <;> cases onward
  case bar =>
      obtain ⟨front, written, rfl⟩ := describes
      have some_alternative : complete ++ [current] ≠ [] := by simp
      refine ⟨front, written, ?_⟩
      rw [alternativesTokens_concat some_alternative [], List.append_assoc, List.cons_append,
        List.cons_append, List.map_nil]
  case semicolon =>
      obtain ⟨front, written, rfl⟩ := describes
      have whole := written.concat ⟨left, complete ++ [current]⟩ (by simp)
      rw [List.append_assoc, List.cons_append, List.cons_append]
      exact whole
  case name text => exact describes.symbol_inRule (.name text)
  case literal text => exact describes.symbol_inRule (.literal text)

theorem Describes.next {phase later : Phase} {tokens : List Token} {token : Token}
    (describes : phase.Describes tokens) (onward : phase.next token = some later) :
    later.Describes (tokens ++ [token]) := by
  cases phase with
  | opening => exact describes.next_opening onward
  | declaring declared => exact describes.next_declaring onward
  | listing declared => exact describes.next_listing onward
  | betweenRules done =>
      cases token <;> cases onward
      exact ⟨tokens, describes, rfl⟩
  | afterLeft done left =>
      cases token <;> cases onward
      obtain ⟨front, written, rfl⟩ := describes
      exact ⟨front, written, by simp [alternativesTokens_singleton]⟩
  | inRule done left complete current => exact describes.next_inRule onward

theorem Describes.readOn {phase later : Phase} {front tokens : List Token}
    (describes : phase.Describes front) (onward : phase.readOn tokens = some later) :
    later.Describes (front ++ tokens) := by
  induction tokens generalizing phase front with
  | nil =>
      cases onward
      rwa [List.append_nil]
  | cons token tokens inductionHypothesis =>
      obtain ⟨middle, first, rest⟩ := Option.bind_eq_some_iff.mp onward
      have whole := inductionHypothesis (describes.next first) rest
      rwa [List.append_assoc, List.singleton_append] at whole

/-- Some tokens that complete what has been read. -/
def closing : Phase → List Token
  | .opening => [.split]
  | .declaring _ => [.name "x", .split]
  | .listing _ => [.split]
  | .betweenRules _ => []
  | .afterLeft _ _ => [.colon, .semicolon]
  | .inRule _ _ _ _ => [.semicolon]

theorem exists_closed (phase : Phase) :
    ∃ grammar, phase.readOn phase.closing = some (.betweenRules grammar) := by
  cases phase <;> exact ⟨_, rfl⟩

theorem eq_betweenRules_of_finished? {phase : Phase} {grammar : WrittenGrammar}
    (finished : phase.finished? = some grammar) : phase = .betweenRules grammar := by
  cases phase <;> cases finished
  rfl

end Phase

/-- The written forms are the tokens that lead to a place between rules. -/
theorem isWritten_iff {tokens : List Token} {grammar : WrittenGrammar} :
    IsWritten tokens grammar ↔ Phase.opening.readOn tokens = some (.betweenRules grammar) := by
  constructor
  · exact Phase.readOn_of_isWritten
  · intro onward
    have nothing : Phase.opening.Describes [] := rfl
    exact nothing.readOn onward

theorem IsWritten.unique {tokens : List Token} {first second : WrittenGrammar}
    (firstWritten : IsWritten tokens first) (secondWritten : IsWritten tokens second) :
    first = second := by
  rw [isWritten_iff] at firstWritten secondWritten
  rw [firstWritten] at secondWritten
  cases secondWritten
  rfl

/-- The beginnings of written forms are the tokens that lead to any phase. -/
theorem begins_iff {tokens : List Token} :
    Begins tokens ↔ ∃ phase, Phase.opening.readOn tokens = some phase := by
  constructor
  · rintro ⟨more, grammar, written⟩
    rw [isWritten_iff, Phase.readOn_append] at written
    obtain ⟨phase, onward, _⟩ := Option.bind_eq_some_iff.mp written
    exact ⟨phase, onward⟩
  · rintro ⟨phase, onward⟩
    obtain ⟨grammar, closed⟩ := phase.exists_closed
    refine ⟨phase.closing, grammar, isWritten_iff.mpr ?_⟩
    rw [Phase.readOn_append, onward]
    exact closed

/-! ### Answers -/

def Tokenized.words (tokenized : Tokenized) : List Token := tokenized.tokens.map LocatedToken.token

/-- The answers to tokens: the grammar of which they are the written form, an error for the first
token with which no written form can go on, or an error for tokens that end too early. -/
inductive IsAnswer {Error : Type} (tokenized : Tokenized) (atToken : LocatedToken → Error)
    (atEnd : Error) : Except Error WrittenGrammar → Prop where
  | whole {grammar : WrittenGrammar} (written : IsWritten tokenized.words grammar) :
      IsAnswer tokenized atToken atEnd (.ok grammar)
  | ended (begins : Begins tokenized.words)
      (unwritten : ∀ grammar, ¬IsWritten tokenized.words grammar) :
      IsAnswer tokenized atToken atEnd (.error atEnd)
  | stopped {place : Nat} {located : LocatedToken}
      (atPlace : tokenized.tokens[place]? = some located)
      (misfit : IsMisfit tokenized.words place) :
      IsAnswer tokenized atToken atEnd (.error (atToken located))

namespace IsAnswer

variable {Error Other : Type} {tokenized : Tokenized} {atToken : LocatedToken → Error}
  {atEnd : Error} {result : Except Error WrittenGrammar}

theorem unique {other : Except Error WrittenGrammar}
    (answer : IsAnswer tokenized atToken atEnd result)
    (another : IsAnswer tokenized atToken atEnd other) : result = other := by
  cases answer with
  | @whole grammar written =>
      cases another with
      | whole alsoWritten => rw [written.unique alsoWritten]
      | ended _ unwritten => exact absurd written (unwritten grammar)
      | stopped _ misfit => exact absurd written (misfit.not_isWritten grammar)
  | ended begins unwritten =>
      cases another with
      | @whole grammar written => exact absurd written (unwritten grammar)
      | ended => rfl
      | stopped _ misfit => exact absurd begins misfit.not_begins
  | stopped atPlace misfit =>
      cases another with
      | @whole grammar written => exact absurd written (misfit.not_isWritten grammar)
      | ended begins => exact absurd begins misfit.not_begins
      | stopped atOther alsoMisfit =>
          obtain rfl := misfit.unique alsoMisfit
          rw [atPlace] at atOther
          cases atOther
          rfl

theorem mapError (answer : IsAnswer tokenized atToken atEnd result) (view : Error → Other) :
    IsAnswer tokenized (view ∘ atToken) (view atEnd) (result.mapError view) := by
  cases answer with
  | whole written => exact .whole written
  | ended begins unwritten => exact .ended begins unwritten
  | stopped atPlace misfit => exact .stopped atPlace misfit

theorem eq_ok_iff (answer : IsAnswer tokenized atToken atEnd result) (grammar : WrittenGrammar) :
    result = .ok grammar ↔ IsWritten tokenized.words grammar := by
  constructor
  · rintro rfl
    cases answer with
    | whole written => exact written
  · exact fun written => answer.unique (.whole written)

theorem eq_error_iff (answer : IsAnswer tokenized atToken atEnd result) (error : Error) :
    result = .error error ↔
      (∃ place located, tokenized.tokens[place]? = some located ∧
          IsMisfit tokenized.words place ∧ error = atToken located) ∨
        (Begins tokenized.words ∧ (∀ grammar, ¬IsWritten tokenized.words grammar) ∧
          error = atEnd) := by
  constructor
  · rintro rfl
    cases answer with
    | ended begins unwritten => exact .inr ⟨begins, unwritten, rfl⟩
    | @stopped place located atPlace misfit => exact .inl ⟨place, located, atPlace, misfit, rfl⟩
  · rintro (⟨place, located, atPlace, misfit, rfl⟩ | ⟨begins, unwritten, rfl⟩)
    · exact answer.unique (.stopped atPlace misfit)
    · exact answer.unique (.ended begins unwritten)

end IsAnswer

/-! ### The reader by phases -/

/-- The tokens are read to their end, or up to the first one without a next phase. -/
inductive Reading (lastLine : Nat) (phase : Phase) (tokens : List LocatedToken) :
    Except TextError WrittenGrammar → Prop where
  | complete {grammar : WrittenGrammar}
      (onward : phase.readOn (tokens.map LocatedToken.token) = some (.betweenRules grammar)) :
      Reading lastLine phase tokens (.ok grammar)
  | ended {later : Phase} (onward : phase.readOn (tokens.map LocatedToken.token) = some later)
      (unfinished : later.finished? = none) :
      Reading lastLine phase tokens (.error (.unexpected lastLine none))
  | stopped (place : Nat) {located : LocatedToken} {later : Phase}
      (atPlace : tokens[place]? = some located)
      (onward : phase.readOn ((tokens.map LocatedToken.token).take place) = some later)
      (stuck : later.next located.token = none) :
      Reading lastLine phase tokens (.error (.unexpected located.line (some located.token)))

theorem reading_readFrom (lastLine : Nat) (phase : Phase) (tokens : List LocatedToken) :
    Reading lastLine phase tokens (readFrom lastLine phase tokens) := by
  induction tokens generalizing phase with
  | nil =>
      rw [readFrom]
      cases finished : phase.finished? with
      | none => exact .ended rfl finished
      | some grammar =>
          refine .complete ?_
          rw [Phase.eq_betweenRules_of_finished? finished]
          rfl
  | cons located tokens inductionHypothesis =>
      rw [readFrom]
      cases first : phase.next located.token with
      | none => exact .stopped 0 rfl rfl first
      | some middle =>
          -- One token more in front of what the shorter reading says.
          have ahead (rest : List Token) :
              phase.readOn (located.token :: rest) = middle.readOn rest := by
            rw [Phase.readOn, first, Option.bind_some]
          have reading := inductionHypothesis middle
          dsimp only
          generalize readFrom lastLine middle tokens = result at reading ⊢
          cases reading with
          | complete onward => exact .complete ((ahead _).trans onward)
          | ended onward unfinished => exact .ended ((ahead _).trans onward) unfinished
          | stopped place atPlace onward stuck =>
              exact .stopped (place + 1) atPlace ((ahead _).trans onward) stuck

namespace WrittenGrammar

theorem isMisfit_of_stopped {tokenized : Tokenized} {place : Nat} {located : LocatedToken}
    {later : Phase} (atPlace : tokenized.tokens[place]? = some located)
    (onward : Phase.opening.readOn (tokenized.words.take place) = some later)
    (stuck : later.next located.token = none) : IsMisfit tokenized.words place := by
  refine .of_begins (begins_iff.mpr ⟨later, onward⟩) ?_
  intro begins
  obtain ⟨phase, further⟩ := begins_iff.mp begins
  have word : tokenized.words[place]? = some located.token := by
    rw [Tokenized.words, List.getElem?_map, atPlace, Option.map_some]
  rw [List.take_add_one, word, Option.toList_some, Phase.readOn_append, onward,
    Option.bind_some, Phase.readOn_singleton, stuck] at further
  exact absurd further (by simp)

theorem not_isWritten_of_unfinished {tokens : List Token} {later : Phase}
    (onward : Phase.opening.readOn tokens = some later) (unfinished : later.finished? = none)
    (grammar : WrittenGrammar) : ¬IsWritten tokens grammar := by
  intro written
  rw [isWritten_iff, onward] at written
  cases written
  exact absurd unfinished (by simp [Phase.finished?])

/-- The error names the token and its line, or the last line. -/
theorem isAnswer_ofTokens (tokenized : Tokenized) :
    IsAnswer tokenized (fun located => .unexpected located.line (some located.token))
      (.unexpected tokenized.lastLine none) (ofTokens tokenized) := by
  have reading := reading_readFrom tokenized.lastLine .opening tokenized.tokens
  unfold ofTokens
  generalize readFrom tokenized.lastLine .opening tokenized.tokens = result at reading ⊢
  cases reading with
  | complete onward => exact .whole (isWritten_iff.mpr onward)
  | @ended later onward unfinished =>
      exact .ended (begins_iff.mpr ⟨later, onward⟩) (not_isWritten_of_unfinished onward unfinished)
  | stopped place atPlace onward stuck =>
      exact .stopped atPlace (isMisfit_of_stopped atPlace onward stuck)

/-- The rule begins on line 2 but is given up at its second colon. -/
example : ofTokens ⟨[⟨.split, 1⟩, ⟨.name "S", 2⟩, ⟨.colon, 2⟩, ⟨.name "T", 3⟩, ⟨.colon, 3⟩], 4⟩ =
    .error (.unexpected 3 (some .colon)) := by decide

end WrittenGrammar

end Predictive.GrammarText
