import Predictive.GrammarText.Written

/-!
Contract: a grammar as an expression over a library of parser combinators.

Owns: attempts at a place of the input, what a library offers, the laws by which its combinators
take tokens, go back and report, the expression for a grammar, and the error of what it refuses.
Does not own: how a library keeps the laws, and the reader that goes from phase to phase. Under the
laws the two answer alike.

An attempt that fails leaves its place as it was, so a half-read rule is forgotten when the rules
end in front of it. What is not forgotten are the places at which something was refused, and the
furthest of them is the one reported.
-/

namespace Predictive.GrammarText

/-- What a parser makes of the tokens from a place on. -/
structure Attempt (Value : Type) where
  /-- The value, and the place behind its tokens; none if the parser fails. -/
  result : Option (Value × Nat)
  /-- The places at which a token, or the end of the tokens, was refused on the way. -/
  refusals : List Nat
deriving DecidableEq, Repr

namespace Attempt

variable {Value First Second : Type}

def map (view : Value → First) (attempt : Attempt Value) : Attempt First :=
  ⟨attempt.result.map fun (value, place) => (view value, place), attempt.refusals⟩

/-- An attempt and, from the place it comes to, another. -/
def andThen (first : Attempt First) (second : Nat → Attempt Second) : Attempt (First × Second) :=
  match first.result with
  | none => ⟨none, first.refusals⟩
  | some (value, place) =>
      ⟨(second place).result.map fun (other, behind) => ((value, other), behind),
        first.refusals ++ (second place).refusals⟩

end Attempt

/-- An error of a library. -/
structure Failure where
  /-- The token that was refused, none for the end of the tokens. -/
  found : Option Token
  /-- The place at which the span of the error starts. -/
  start : Nat
deriving DecidableEq, Repr

/-- What a library of combinators offers. -/
structure Combinators where
  Parser : Type → Type
  /-- One token, if a value is chosen for it. -/
  select {Value : Type} : (Token → Option Value) → Parser Value
  endOfInput : Parser Unit
  map {Value Other : Type} : (Value → Other) → Parser Value → Parser Other
  andThen {First Second : Type} : Parser First → Parser Second → Parser (First × Second)
  ignoreThen {First Second : Type} : Parser First → Parser Second → Parser Second
  thenIgnore {First Second : Type} : Parser First → Parser Second → Parser First
  /-- As many items as there are, but no fewer than a number of them. -/
  repeated {Item : Type} : Nat → Parser Item → Parser (List Item)
  /-- As many items as there are, with a separator between one and the next. -/
  separatedBy {Item Separator : Type} : Parser Item → Parser Separator → Parser (List Item)
  attempt {Value : Type} : Parser Value → List Token → Nat → Attempt Value
  /-- The value of a whole input, or the errors met, the one to report first. -/
  parse {Value : Type} : Parser Value → List Token → Except (List Failure) Value

/-- The laws that a library keeps. -/
structure Combinators.IsLawful (library : Combinators) : Prop where
  /-- A token for which no value is chosen is refused where it stands. -/
  attempt_select : ∀ {Value : Type} (choose : Token → Option Value) (tokens : List Token)
    (place : Nat), library.attempt (library.select choose) tokens place =
      match tokens[place]?.bind choose with
      | some value => ⟨some (value, place + 1), []⟩
      | none => ⟨none, [place]⟩
  attempt_endOfInput : ∀ (tokens : List Token) (place : Nat),
    library.attempt library.endOfInput tokens place =
      if tokens[place]? = none then ⟨some ((), place), []⟩ else ⟨none, [place]⟩
  attempt_map : ∀ {Value Other : Type} (view : Value → Other) (parser : library.Parser Value)
    (tokens : List Token) (place : Nat), library.attempt (library.map view parser) tokens place =
      (library.attempt parser tokens place).map view
  attempt_andThen : ∀ {First Second : Type} (first : library.Parser First)
    (second : library.Parser Second) (tokens : List Token) (place : Nat),
    library.attempt (library.andThen first second) tokens place =
      (library.attempt first tokens place).andThen (library.attempt second tokens)
  attempt_ignoreThen : ∀ {First Second : Type} (first : library.Parser First)
    (second : library.Parser Second) (tokens : List Token) (place : Nat),
    library.attempt (library.ignoreThen first second) tokens place =
      ((library.attempt first tokens place).andThen (library.attempt second tokens)).map Prod.snd
  attempt_thenIgnore : ∀ {First Second : Type} (first : library.Parser First)
    (second : library.Parser Second) (tokens : List Token) (place : Nat),
    library.attempt (library.thenIgnore first second) tokens place =
      ((library.attempt first tokens place).andThen (library.attempt second tokens)).map Prod.fst
  /-- A repetition ends in front of an item that fails, and fails itself if items are missing. -/
  attempt_repeated_of_none : ∀ {Item : Type} (least : Nat) (item : library.Parser Item)
    (tokens : List Token) (place : Nat), (library.attempt item tokens place).result = none →
      library.attempt (library.repeated least item) tokens place =
        ⟨if least = 0 then some ([], place) else none,
          (library.attempt item tokens place).refusals⟩
  /-- It goes on behind an item that has taken a token. -/
  attempt_repeated_of_some : ∀ {Item : Type} (least : Nat) (item : library.Parser Item)
    (tokens : List Token) (place : Nat) (value : Item) (next : Nat),
    (library.attempt item tokens place).result = some (value, next) → place < next →
      next ≤ tokens.length →
        library.attempt (library.repeated least item) tokens place =
          ((library.attempt item tokens place).andThen
            (library.attempt (library.repeated (least - 1) item) tokens)).map
              fun (value, more) => value :: more
  /-- Without a first item nothing is taken. -/
  attempt_separatedBy_of_none : ∀ {Item Separator : Type} (item : library.Parser Item)
    (separator : library.Parser Separator) (tokens : List Token) (place : Nat),
    (library.attempt item tokens place).result = none →
      library.attempt (library.separatedBy item separator) tokens place =
        ⟨some ([], place), (library.attempt item tokens place).refusals⟩
  /-- Behind the first item, separators with an item each are repeated. -/
  attempt_separatedBy_of_some : ∀ {Item Separator : Type} (item : library.Parser Item)
    (separator : library.Parser Separator) (tokens : List Token) (place : Nat) (value : Item)
    (next : Nat), (library.attempt item tokens place).result = some (value, next) →
      library.attempt (library.separatedBy item separator) tokens place =
        ((library.attempt item tokens place).andThen
          (library.attempt (library.repeated 0 (library.ignoreThen separator item)) tokens)).map
            fun (value, more) => value :: more
  /-- A value counts where it takes the whole input. -/
  parse_of_some : ∀ {Value : Type} (parser : library.Parser Value) (tokens : List Token)
    (value : Value) (place : Nat),
    (library.attempt (library.thenIgnore parser library.endOfInput) tokens 0).result =
        some (value, place) →
      library.parse parser tokens = .ok value
  /-- The furthest failure is the one reported. -/
  parse_of_none : ∀ {Value : Type} (parser : library.Parser Value) (tokens : List Token)
    (furthest : Nat),
    (library.attempt (library.thenIgnore parser library.endOfInput) tokens 0).result = none →
      furthest ∈
        (library.attempt (library.thenIgnore parser library.endOfInput) tokens 0).refusals →
      (∀ place ∈
        (library.attempt (library.thenIgnore parser library.endOfInput) tokens 0).refusals,
          place ≤ furthest) →
      ∃ others, library.parse parser tokens = .error (⟨tokens[furthest]?, furthest⟩ :: others)

/-! ### The expression for a grammar -/

def Token.name? : Token → Option String
  | .name text => some text
  | _ => none

namespace Combinators

variable (library : Combinators)

/-- One particular token, of which nothing is kept. -/
def word (expected : Token) : library.Parser Unit :=
  library.select fun token => if token = expected then some () else none

/-- A name or a literal, as something makes use of it. -/
def symbol {Value : Type} (view : WrittenSymbol → Value) : library.Parser Value :=
  library.select fun token => token.symbol?.map view

def declaration : library.Parser (List String) :=
  library.ignoreThen (library.word .declare)
    (library.repeated 1 (library.symbol WrittenSymbol.text))

def alternative : library.Parser (List WrittenSymbol) :=
  library.repeated 0 (library.symbol id)

def rule : library.Parser WrittenRule :=
  library.map (fun (left, alternatives) => ⟨left, alternatives⟩)
    (library.thenIgnore
      (library.andThen
        (library.thenIgnore (library.select Token.name?) (library.word .colon))
        (library.separatedBy library.alternative (library.word .bar)))
      (library.word .semicolon))

def grammar : library.Parser WrittenGrammar :=
  library.map (fun (declarations, rules) => ⟨declarations.flatten, rules⟩)
    (library.thenIgnore
      (library.andThen
        (library.thenIgnore (library.repeated 0 library.declaration) (library.word .split))
        (library.repeated 0 library.rule))
      library.endOfInput)

end Combinators

/-! ### Errors -/

structure SyntaxError where
  line : Nat
  message : String
deriving DecidableEq, Repr

def SyntaxError.shown (error : SyntaxError) : String := s!"line {error.line}: {error.message}"

/-- What is unexpected where a token, or the end of the tokens, is refused. -/
def unexpectedMessage : Option Token → String
  | some token => s!"unexpected `{token.text}`"
  | none => "unexpected end of input"

/-- The first of the errors, on its line. -/
def Tokenized.syntaxError (tokenized : Tokenized) : List Failure → SyntaxError
  | failure :: _ => ⟨tokenized.lineOf failure.start, unexpectedMessage failure.found⟩
  | [] => ⟨tokenized.lastLine, "invalid grammar"⟩

/-- Reads tokens by means of a library. -/
def Combinators.readGrammar (library : Combinators) (tokenized : Tokenized) :
    Except SyntaxError WrittenGrammar :=
  match library.parse library.grammar (tokenized.tokens.map LocatedToken.token) with
  | .ok grammar => .ok grammar
  | .error failures => .error (tokenized.syntaxError failures)

end Predictive.GrammarText
