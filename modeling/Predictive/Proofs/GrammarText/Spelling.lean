import Mathlib.Data.List.TakeWhile
import Predictive.GrammarText.Token

/-!
Contract: the first piece of a text is the longest that is spelled there.

Owns: the spellings of tokens, the pieces that have a spelling of their kind, what stands
behind a piece that cannot go on, and the stretches in which nothing is recognized.
Does not own: the pieces behind the first one.

Two kinds of piece never begin with the same characters, and only blanks, comments and names
can go on at all. So a piece that ends where it must end is the first one
(`firstPiece_of_isSpelled`), and anything else that is spelled there is a beginning of it
(`longest_firstPiece`).
-/

namespace Predictive.GrammarText

/-- Whether characters are a way to write a token. A literal is written between two quotes of
the same kind, which it must not contain. -/
inductive Spells : Token → List Char → Prop where
  | declare : Spells .declare ['%', 't', 'o', 'k', 'e', 'n']
  | split : Spells .split ['%', '%']
  | colon : Spells .colon [':']
  | bar : Spells .bar ['|']
  | semicolon : Spells .semicolon [';']
  | name {first : Char} {rest : List Char} (starts : isNameStart first = true)
      (goes_on : ∀ character ∈ rest, isNameRest character = true) :
      Spells (.name (String.ofList (first :: rest))) (first :: rest)
  | literal {quote : Char} {body : List Char} (is_quote : isQuote quote = true)
      (nonempty : body ≠ []) (unquoted : quote ∉ body) (one_line : '\n' ∉ body) :
      Spells (.literal (String.ofList body)) (quote :: (body ++ [quote]))

/-- Whether a piece has a spelling of its kind. What is not recognized has none. -/
inductive Piece.IsSpelled : Piece → Prop where
  | blanks {spelling : List Char} (nonempty : spelling ≠ [])
      (blank : ∀ character ∈ spelling, isBlank character = true) : IsSpelled (.blanks spelling)
  | newline : IsSpelled .newline
  | comment {body : List Char} (one_line : '\n' ∉ body) :
      IsSpelled (.comment ('-' :: '-' :: body))
  | token {token : Token} {spelling : List Char} (spells : Spells token spelling) :
      IsSpelled (.token token spelling)

/-- Whether a piece cannot go on into what stands behind it. -/
def Piece.EndsAt (after : List Char) : Piece → Prop
  | .blanks _ => ∀ next, after.head? = some next → isBlank next = false
  | .comment _ => ∀ next, after.head? = some next → next = '\n'
  | .token (.name _) _ => ∀ next, after.head? = some next → isNameRest next = false
  | _ => True

/-- Whether a stretch in front of `after` is one in which nothing is recognized: a character
alone, or an opening quote with all that stands between it and the end of its line. -/
inductive IsStray : List Char → List Char → Prop where
  | single {character : Char} {after : List Char} (one_line : character ≠ '\n') :
      IsStray [character] after
  | unclosed {quote : Char} {body after : List Char} (is_quote : isQuote quote = true)
      (nonempty : body ≠ []) (unquoted : quote ∉ body) (one_line : '\n' ∉ body)
      (line_ends : ∀ next, after.head? = some next → next = '\n') :
      IsStray (quote :: body) after

/-! ### Runs of characters -/

/-- A run is all of its class if what stands behind it does not begin with the class. -/
theorem span_exact {fits : Char → Bool} {run after : List Char}
    (inside : ∀ character ∈ run, fits character = true)
    (boundary : ∀ next, after.head? = some next → fits next = false) :
    (run ++ after).takeWhile fits = run ∧ (run ++ after).dropWhile fits = after := by
  rw [List.takeWhile_append_of_pos inside, List.dropWhile_append_of_pos inside]
  cases after with
  | nil => simp
  | cons next rest => simp [boundary next rfl]

/-- What stands behind the longest run of a class does not begin with the class. -/
theorem head_dropWhile {fits : Char → Bool} {text : List Char} (next : Char)
    (head : (text.dropWhile fits).head? = some next) : fits next = false := by
  have boundary := List.head?_dropWhile_not fits text
  rwa [head] at boundary

/-- A run goes on as far as what stands behind it is of its class. -/
theorem run_goes_on {fits : Char → Bool} {run : List Char}
    (inside : ∀ character ∈ run, fits character = true) (after : List Char) :
    ∀ character ∈ run ++ after.takeWhile fits, fits character = true := by
  intro character member
  rcases List.mem_append.mp member with inRun | further
  · exact inside character inRun
  · exact List.mem_takeWhile_imp further

theorem isQuotable_eq_true_iff {quote character : Char} :
    isQuotable quote character = true ↔ character ≠ quote ∧ character ≠ '\n' := by
  simp [isQuotable]

theorem isQuotable_of_mem {quote : Char} {body : List Char} (unquoted : quote ∉ body)
    (one_line : '\n' ∉ body) : ∀ character ∈ body, isQuotable quote character = true := by
  intro character member
  apply isQuotable_eq_true_iff.mpr
  exact ⟨ne_of_mem_of_not_mem member unquoted, ne_of_mem_of_not_mem member one_line⟩

theorem not_mem_takeWhile {fits : Char → Bool} {text : List Char} {character : Char}
    (unfit : fits character = false) : character ∉ text.takeWhile fits := by
  intro member
  rw [List.mem_takeWhile_imp member] at unfit
  contradiction

/-! ### Spellings -/

theorem ne_newline_of_isQuote {quote : Char} (is_quote : isQuote quote = true) :
    quote ≠ '\n' := by
  rintro rfl
  contradiction

theorem Spells.ne_nil {token : Token} {spelling : List Char} (spells : Spells token spelling) :
    spelling ≠ [] := by
  cases spells <;> exact List.cons_ne_nil _ _

theorem Spells.one_line {token : Token} {spelling : List Char} (spells : Spells token spelling) :
    '\n' ∉ spelling := by
  cases spells with
  | declare | split | colon | bar | semicolon => decide
  | name starts goes_on =>
      intro member
      rcases List.mem_cons.mp member with rfl | inRest
      · contradiction
      · exact absurd (goes_on _ inRest) (by decide)
  | literal is_quote nonempty unquoted one_line =>
      simp [(ne_newline_of_isQuote is_quote).symm, one_line]

theorem IsStray.ne_nil {spelling after : List Char} (stray : IsStray spelling after) :
    spelling ≠ [] := by
  cases stray <;> exact List.cons_ne_nil _ _

theorem IsStray.one_line {spelling after : List Char} (stray : IsStray spelling after) :
    '\n' ∉ spelling := by
  cases stray with
  | single one_line => simpa using one_line.symm
  | unclosed is_quote nonempty unquoted one_line =>
      simp [(ne_newline_of_isQuote is_quote).symm, one_line]

/-! ### Each kind of piece by its first character -/

theorem isNameStart_ne {first : Char} (starts : isNameStart first = true) (other : Char)
    (excluded : isNameStart other = false) : first ≠ other := by
  rintro rfl
  rw [starts] at excluded
  contradiction

theorem firstPiece_blank {first : Char} (blank : isBlank first = true) (rest : List Char) :
    firstPiece first rest = (.blanks (first :: rest.takeWhile isBlank), rest.dropWhile isBlank) :=
  if_pos blank

theorem firstPiece_newline (rest : List Char) : firstPiece '\n' rest = (.newline, rest) := rfl

theorem firstPiece_comment (rest : List Char) : firstPiece '-' ('-' :: rest) =
    (.comment ('-' :: '-' :: rest.takeWhile (· ≠ '\n')), rest.dropWhile (· ≠ '\n')) := rfl

theorem firstPiece_name {first : Char} (starts : isNameStart first = true) (rest : List Char) :
    firstPiece first rest =
      (.token (.name (String.ofList (first :: rest.takeWhile isNameRest)))
        (first :: rest.takeWhile isNameRest), rest.dropWhile isNameRest) := by
  have blank : isBlank first = false := by
    simp [isBlank, isNameStart_ne starts ' ' rfl, isNameStart_ne starts '\t' rfl,
      isNameStart_ne starts '\r' rfl, isNameStart_ne starts '\x0c' rfl]
  simp [firstPiece, blank, starts, isNameStart_ne starts '\n' rfl,
    isNameStart_ne starts '-' rfl, isNameStart_ne starts ':' rfl, isNameStart_ne starts '|' rfl,
    isNameStart_ne starts ';' rfl, isNameStart_ne starts '%' rfl]

theorem firstPiece_quote {quote : Char} (is_quote : isQuote quote = true) (rest : List Char) :
    firstPiece quote rest = quotedPiece quote rest := by
  have either : quote = '\'' ∨ quote = '"' := by simpa [isQuote] using is_quote
  rcases either with rfl | rfl <;> rfl

theorem quotedPiece_closed {quote : Char} {body : List Char} (nonempty : body ≠ [])
    (unquoted : quote ∉ body) (one_line : '\n' ∉ body) (after : List Char) :
    quotedPiece quote (body ++ quote :: after) =
      (.token (.literal (String.ofList body)) (quote :: (body ++ [quote])), after) := by
  have boundary : ∀ next, (quote :: after).head? = some next → isQuotable quote next = false := by
    intro next head
    cases head
    simp [isQuotable]
  obtain ⟨taken, dropped⟩ := span_exact (isQuotable_of_mem unquoted one_line) boundary
  unfold quotedPiece
  rw [taken, dropped]
  exact if_pos ⟨rfl, nonempty⟩

/-! ### The longest piece -/

/-- A token ends at the latest where no name can go on. -/
theorem endsAt_of_head {token : Token} {spelling after : List Char}
    (boundary : ∀ next, after.head? = some next → isNameRest next = false) :
    (Piece.token token spelling).EndsAt after := by
  cases token with
  | name text => exact boundary
  | declare | split | colon | bar | semicolon | literal text => trivial

/-- A token that ends where it must end is the first piece of a text. -/
theorem firstPiece_of_spells {token : Token} {spelling after rest : List Char} {first : Char}
    (spells : Spells token spelling) (ends : (Piece.token token spelling).EndsAt after)
    (text : first :: rest = spelling ++ after) :
    firstPiece first rest = (.token token spelling, after) := by
  cases spells with
  | declare | split | colon | bar | semicolon =>
      cases text
      rfl
  | @name start run starts goes_on =>
      rw [List.cons_append] at text
      obtain ⟨rfl, rfl⟩ := List.cons.inj text
      obtain ⟨taken, dropped⟩ := span_exact goes_on ends
      rw [firstPiece_name starts, taken, dropped]
  | @literal quote body is_quote nonempty unquoted one_line =>
      rw [List.cons_append, List.append_assoc, List.singleton_append] at text
      cases text
      rw [firstPiece_quote is_quote, quotedPiece_closed nonempty unquoted one_line]

/-- A piece that ends where it must end is the first piece of a text. -/
theorem firstPiece_of_isSpelled {piece : Piece} {after rest : List Char} {first : Char}
    (spelled : piece.IsSpelled) (ends : piece.EndsAt after)
    (text : first :: rest = piece.spelling ++ after) :
    firstPiece first rest = (piece, after) := by
  cases spelled with
  | @blanks spelling nonempty blank =>
      cases spelling with
      | nil => contradiction
      | cons start run =>
          obtain ⟨starts, inside⟩ := List.forall_mem_cons.mp blank
          obtain ⟨rfl, rfl⟩ := List.cons.inj text
          obtain ⟨taken, dropped⟩ := span_exact inside ends
          show firstPiece first (run ++ after) = _
          rw [firstPiece_blank starts, taken, dropped]
  | newline =>
      cases text
      exact firstPiece_newline after
  | @comment body one_line =>
      cases text
      have inside : ∀ character ∈ body, decide (character ≠ '\n') = true := by
        intro character member
        exact decide_eq_true (ne_of_mem_of_not_mem member one_line)
      have boundary : ∀ next, after.head? = some next → decide (next ≠ '\n') = false := by
        intro next head
        exact decide_eq_false (not_not.mpr (ends next head))
      obtain ⟨taken, dropped⟩ := span_exact inside boundary
      show firstPiece '-' ('-' :: (body ++ after)) = _
      rw [firstPiece_comment, taken, dropped]
  | token spells => exact firstPiece_of_spells spells ends text

/-- Whatever is spelled at the beginning of a text goes on up to where it must end. -/
theorem Piece.IsSpelled.exists_endsAt {piece : Piece} (spelled : piece.IsSpelled)
    (after : List Char) : ∃ longer left, IsSpelled longer ∧ longer.EndsAt left ∧
      longer.spelling ++ left = piece.spelling ++ after ∧
      piece.spelling.length ≤ longer.spelling.length := by
  have kept (ends : piece.EndsAt after) : ∃ longer left, IsSpelled longer ∧ longer.EndsAt left ∧
      longer.spelling ++ left = piece.spelling ++ after ∧
      piece.spelling.length ≤ longer.spelling.length :=
    ⟨piece, after, spelled, ends, rfl, le_rfl⟩
  -- Only the kinds that can go on take more of the text.
  cases spelled with
  | @blanks spelling nonempty blank =>
      refine ⟨.blanks (spelling ++ after.takeWhile isBlank), after.dropWhile isBlank,
        .blanks (by simp [nonempty]) (run_goes_on blank after), head_dropWhile, ?_, ?_⟩
      · show spelling ++ after.takeWhile isBlank ++ after.dropWhile isBlank = spelling ++ after
        rw [List.append_assoc, List.takeWhile_append_dropWhile]
      · show spelling.length ≤ (spelling ++ after.takeWhile isBlank).length
        simp
  | newline => exact kept trivial
  | @comment body one_line =>
      refine ⟨.comment ('-' :: '-' :: (body ++ after.takeWhile (· ≠ '\n'))),
        after.dropWhile (· ≠ '\n'), .comment ?_, ?_, ?_, ?_⟩
      · intro member
        rcases List.mem_append.mp member with inBody | further
        · exact one_line inBody
        · exact not_mem_takeWhile (by simp) further
      · intro next head
        simpa using head_dropWhile next head
      · show '-' :: '-' :: (body ++ after.takeWhile (· ≠ '\n')) ++ after.dropWhile (· ≠ '\n') =
          '-' :: '-' :: body ++ after
        rw [List.cons_append, List.cons_append, List.append_assoc,
          List.takeWhile_append_dropWhile]
        rfl
      · show ('-' :: '-' :: body).length ≤ ('-' :: '-' :: (body ++ _)).length
        simp
  | @token token spelling spells =>
      cases spells with
      | @name start run starts goes_on =>
          refine ⟨.token (.name (String.ofList (start :: (run ++ after.takeWhile isNameRest))))
            (start :: (run ++ after.takeWhile isNameRest)), after.dropWhile isNameRest,
            .token (.name starts (run_goes_on goes_on after)), head_dropWhile, ?_, ?_⟩
          · show start :: (run ++ after.takeWhile isNameRest) ++ after.dropWhile isNameRest =
              start :: run ++ after
            rw [List.cons_append, List.append_assoc, List.takeWhile_append_dropWhile]
            rfl
          · show (start :: run).length ≤ (start :: (run ++ after.takeWhile isNameRest)).length
            simp
      | declare | split | colon | bar | semicolon | literal => exact kept trivial

/-- Where anything is spelled at all, the first piece is spelled too and at least as long. -/
theorem longest_firstPiece {piece : Piece} {after rest : List Char} {first : Char}
    (spelled : piece.IsSpelled) (text : first :: rest = piece.spelling ++ after) :
    (firstPiece first rest).1.IsSpelled ∧
      piece.spelling.length ≤ (firstPiece first rest).1.spelling.length := by
  obtain ⟨longer, left, alsoSpelled, ends, same, longest⟩ := spelled.exists_endsAt after
  rw [firstPiece_of_isSpelled alsoSpelled ends (text.trans same.symm)]
  exact ⟨alsoSpelled, longest⟩

/-! ### Where nothing is recognized -/

/-- Whether the first piece of a text is a token or a stretch in which nothing is recognized,
with what is left of the text. -/
inductive IsLexical : Piece × List Char → Prop where
  | token {token : Token} {spelling left : List Char} (spells : Spells token spelling) :
      IsLexical (.token token spelling, left)
  | stray {spelling left : List Char} (stray : IsStray spelling left) :
      IsLexical (.unrecognized spelling, left)

theorem IsLexical.ne_nil {result : Piece × List Char} (lexical : IsLexical result) :
    result.1.spelling ≠ [] := by
  cases lexical with
  | token spells => exact spells.ne_nil
  | stray stray => exact stray.ne_nil

theorem IsLexical.one_line {result : Piece × List Char} (lexical : IsLexical result) :
    '\n' ∉ result.1.spelling := by
  cases lexical with
  | token spells => exact spells.one_line
  | stray stray => exact stray.one_line

theorem isLexical_quotedPiece {quote : Char} (is_quote : isQuote quote = true)
    (rest : List Char) : IsLexical (quotedPiece quote rest) := by
  have unquoted : quote ∉ rest.takeWhile (isQuotable quote) :=
    not_mem_takeWhile (by simp [isQuotable])
  have one_line : '\n' ∉ rest.takeWhile (isQuotable quote) :=
    not_mem_takeWhile (by simp [isQuotable])
  have quote_ne := ne_newline_of_isQuote is_quote
  have boundary := @head_dropWhile (isQuotable quote) rest
  unfold quotedPiece
  by_cases nonempty : rest.takeWhile (isQuotable quote) = []
  · -- Nothing between the quotes, or nothing that could stand there.
    rw [nonempty]
    cases rest.dropWhile (isQuotable quote) with
    | nil => exact .stray (.single quote_ne)
    | cons next left => simpa using IsLexical.stray (.single quote_ne)
  · cases stop : rest.dropWhile (isQuotable quote) with
    | nil => exact .stray (.unclosed is_quote nonempty unquoted one_line (by simp))
    | cons next left =>
        rw [stop] at boundary
        by_cases closed : next = quote
        · simp only [closed, nonempty, ne_eq, not_false_eq_true, and_self, if_true]
          exact .token (.literal is_quote nonempty unquoted one_line)
        · simp only [closed, false_and, if_false]
          apply IsLexical.stray
          apply IsStray.unclosed is_quote nonempty unquoted one_line
          intro other head
          cases head
          simpa [isQuotable, closed] using boundary next rfl

theorem isLexical_percentPiece (rest : List Char) : IsLexical (percentPiece rest) := by
  unfold percentPiece
  split
  · exact .token .declare
  · exact .token .split
  · exact .stray (.single (by decide))

/-- Whatever does not begin with a blank, the end of a line or a comment begins with a token or
with a stretch in which nothing is recognized. -/
theorem isLexical_firstPiece {first : Char} {rest : List Char} (solid : isBlank first = false)
    (one_line : first ≠ '\n') (uncommented : ¬(first = '-' ∧ rest.head? = some '-')) :
    IsLexical (firstPiece first rest) := by
  unfold firstPiece
  rw [if_neg (by simp [solid]), if_neg one_line, if_neg uncommented]
  split_ifs with colon bar semicolon percent starts quote
  · exact colon ▸ .token .colon
  · exact bar ▸ .token .bar
  · exact semicolon ▸ .token .semicolon
  · exact isLexical_percentPiece rest
  · exact .token (.name starts fun character member => List.mem_takeWhile_imp member)
  · exact isLexical_quotedPiece quote rest
  · exact .stray (.single one_line)

end Predictive.GrammarText
