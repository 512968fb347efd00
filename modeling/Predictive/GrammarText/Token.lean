/-!
Contract: the tokens of grammar text and the pieces that a text falls into.

Owns: tokens with their words, pieces with their spelling, and the first piece of any text
that is not empty.
Does not own: line numbers, and what a token is good for.

The spelling of the first piece and what is left make up the text (`splits_firstPiece`). A
piece is the longest that its first characters allow. Where nothing fits, the piece is one
unrecognized character, or an opening quote with all that stands between it and the end
of the line.
-/

namespace Predictive.GrammarText

inductive Token where
  | declare
  | split
  | colon
  | bar
  | semicolon
  | name (text : String)
  | literal (text : String)
deriving DecidableEq, Repr

/-- A token in words; a literal in single quotes, however it was written. -/
def Token.text : Token → String
  | .declare => "%token"
  | .split => "%%"
  | .colon => ":"
  | .bar => "|"
  | .semicolon => ";"
  | .name text => text
  | .literal text => s!"'{text}'"

inductive Piece where
  | blanks (spelling : List Char)
  | newline
  | comment (spelling : List Char)
  | token (token : Token) (spelling : List Char)
  | unrecognized (spelling : List Char)
deriving DecidableEq, Repr

def Piece.spelling : Piece → List Char
  | .blanks spelling => spelling
  | .newline => ['\n']
  | .comment spelling => spelling
  | .token _ spelling => spelling
  | .unrecognized spelling => spelling

def isBlank (character : Char) : Bool :=
  character = ' ' || character = '\t' || character = '\r' || character = '\x0c'

def isNameStart (character : Char) : Bool := character.isAlpha || character = '_'

def isNameRest (character : Char) : Bool :=
  character.isAlphanum || character = '_' || character = '\''

def isQuote (character : Char) : Bool := character = '\'' || character = '"'

/-- Whether a character can stand between two of the quotes. -/
def isQuotable (quote character : Char) : Bool := character ≠ quote && character ≠ '\n'

/-- The piece that begins with a quote, and what is left. -/
def quotedPiece (quote : Char) (rest : List Char) : Piece × List Char :=
  let body := rest.takeWhile (isQuotable quote)
  match rest.dropWhile (isQuotable quote) with
  | next :: left =>
      if next = quote ∧ body ≠ [] then
        (.token (.literal (String.ofList body)) (quote :: (body ++ [quote])), left)
      else (.unrecognized (quote :: body), next :: left)
  | [] => (.unrecognized (quote :: body), [])

/-- The piece that begins with a percent sign, and what is left. -/
def percentPiece : List Char → Piece × List Char
  | 't' :: 'o' :: 'k' :: 'e' :: 'n' :: left =>
      (.token .declare ['%', 't', 'o', 'k', 'e', 'n'], left)
  | '%' :: left => (.token .split ['%', '%'], left)
  | left => (.unrecognized ['%'], left)

/-- The first piece of a text that is not empty, and what is left of the text. -/
def firstPiece (first : Char) (rest : List Char) : Piece × List Char :=
  if isBlank first then
    (.blanks (first :: rest.takeWhile isBlank), rest.dropWhile isBlank)
  else if first = '\n' then (.newline, rest)
  else if first = '-' ∧ rest.head? = some '-' then
    (.comment (first :: rest.takeWhile (· ≠ '\n')), rest.dropWhile (· ≠ '\n'))
  else if first = ':' then (.token .colon [first], rest)
  else if first = '|' then (.token .bar [first], rest)
  else if first = ';' then (.token .semicolon [first], rest)
  else if first = '%' then percentPiece rest
  else if isNameStart first then
    let spelling := first :: rest.takeWhile isNameRest
    (.token (.name (String.ofList spelling)) spelling, rest.dropWhile isNameRest)
  else if isQuote first then quotedPiece first rest
  else (.unrecognized [first], rest)

/-- A piece with a spelling, which with what is left makes up a text. -/
def Splits (text : List Char) (result : Piece × List Char) : Prop :=
  result.1.spelling ++ result.2 = text ∧ result.1.spelling ≠ []

private theorem splits_while (first : Char) (rest : List Char) (fits : Char → Bool)
    (piece : Piece) (spelled : piece.spelling = first :: rest.takeWhile fits) :
    Splits (first :: rest) (piece, rest.dropWhile fits) := by
  constructor
  · show piece.spelling ++ rest.dropWhile fits = first :: rest
    rw [spelled, List.cons_append, List.takeWhile_append_dropWhile]
  · show piece.spelling ≠ []
    rw [spelled]
    exact List.cons_ne_nil _ _

private theorem splits_single (first : Char) (rest : List Char) (piece : Piece)
    (spelled : piece.spelling = [first]) : Splits (first :: rest) (piece, rest) := by
  constructor
  · show piece.spelling ++ rest = first :: rest
    rw [spelled, List.singleton_append]
  · show piece.spelling ≠ []
    rw [spelled]
    exact List.cons_ne_nil _ _

private theorem splits_quotedPiece (quote : Char) (rest : List Char) :
    Splits (quote :: rest) (quotedPiece quote rest) := by
  have whole := List.takeWhile_append_dropWhile (p := isQuotable quote) (l := rest)
  unfold quotedPiece
  cases stop : rest.dropWhile (isQuotable quote) with
  | nil =>
      refine ⟨?_, List.cons_ne_nil _ _⟩
      show quote :: rest.takeWhile (isQuotable quote) ++ [] = quote :: rest
      rw [stop] at whole
      rw [List.cons_append, whole]
  | cons next left =>
      rw [stop] at whole
      by_cases closed : next = quote ∧ rest.takeWhile (isQuotable quote) ≠ []
      · simp only [closed, and_self, ne_eq, not_false_eq_true, if_true]
        refine ⟨?_, List.cons_ne_nil _ _⟩
        show quote :: (rest.takeWhile (isQuotable quote) ++ [quote]) ++ left = quote :: rest
        rw [closed.1] at whole
        rw [List.cons_append, List.append_assoc, List.singleton_append, whole]
      · simp only [closed, if_false]
        refine ⟨?_, List.cons_ne_nil _ _⟩
        show quote :: rest.takeWhile (isQuotable quote) ++ next :: left = quote :: rest
        rw [List.cons_append, whole]

private theorem splits_percentPiece (rest : List Char) :
    Splits ('%' :: rest) (percentPiece rest) := by
  unfold percentPiece
  split <;> exact ⟨rfl, List.cons_ne_nil _ _⟩

/-- The first piece and what is left make up the text, and the piece is not empty. -/
theorem splits_firstPiece (first : Char) (rest : List Char) :
    Splits (first :: rest) (firstPiece first rest) := by
  unfold firstPiece
  by_cases blank : isBlank first = true
  · rw [if_pos blank]
    exact splits_while first rest isBlank _ rfl
  rw [if_neg blank]
  by_cases newline : first = '\n'
  · rw [if_pos newline]
    exact splits_single first rest .newline (newline ▸ rfl)
  rw [if_neg newline]
  by_cases comment : first = '-' ∧ rest.head? = some '-'
  · rw [if_pos comment]
    exact splits_while first rest _ _ rfl
  rw [if_neg comment]
  by_cases colon : first = ':'
  · rw [if_pos colon]
    exact splits_single first rest _ rfl
  rw [if_neg colon]
  by_cases bar : first = '|'
  · rw [if_pos bar]
    exact splits_single first rest _ rfl
  rw [if_neg bar]
  by_cases semicolon : first = ';'
  · rw [if_pos semicolon]
    exact splits_single first rest _ rfl
  rw [if_neg semicolon]
  by_cases percent : first = '%'
  · rw [if_pos percent]
    exact percent ▸ splits_percentPiece rest
  rw [if_neg percent]
  by_cases name : isNameStart first = true
  · rw [if_pos name]
    exact splits_while first rest isNameRest _ rfl
  rw [if_neg name]
  by_cases quote : isQuote first = true
  · rw [if_pos quote]
    exact splits_quotedPiece first rest
  rw [if_neg quote]
  exact splits_single first rest _ rfl

/-- A text gets shorter when its first piece is taken away. -/
theorem length_firstPiece_lt (first : Char) (rest : List Char) :
    (firstPiece first rest).2.length < (first :: rest).length := by
  obtain ⟨whole, spelled⟩ := splits_firstPiece first rest
  rw [← whole, List.length_append]
  have positive := List.length_pos_iff.mpr spelled
  omega

end Predictive.GrammarText
