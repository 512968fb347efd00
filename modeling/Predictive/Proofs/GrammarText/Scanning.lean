import Mathlib.Logic.Function.Iterate
import Predictive.GrammarText.Lexeme
import Predictive.Proofs.GrammarText.Spelling

/-!
Contract: scanning splits a text into lexemes and gaps, and counts its lines.

Owns: layout, the parts of a text, what a scanner does with each part, and the tokens of a
text against the lexemes that are met in it.
Does not own: which texts consist of tokens only.

A scanner counts a line only where it passes the end of one. That its count is right is
because no spelling contains the end of a line, whether it is recognized or not.
-/

namespace Predictive.GrammarText

/-! ### Layout -/

/-- Whether characters only stand between tokens: blanks, ends of lines, and comments up to
the end of their line. -/
inductive IsLayout : List Char → Prop where
  | nil : IsLayout []
  | blank {first : Char} {rest : List Char} (blank : isBlank first = true)
      (layout : IsLayout rest) : IsLayout (first :: rest)
  | newline {rest : List Char} (layout : IsLayout rest) : IsLayout ('\n' :: rest)
  | comment {body rest : List Char} (one_line : '\n' ∉ body) (layout : IsLayout rest) :
      IsLayout ('-' :: '-' :: (body ++ '\n' :: rest))

/-- Whether characters are layout at the end of a text, where a comment can stay open. -/
inductive IsTrail : List Char → Prop where
  | closed {text : List Char} (layout : IsLayout text) : IsTrail text
  | open_comment {front body : List Char} (layout : IsLayout front) (one_line : '\n' ∉ body) :
      IsTrail (front ++ '-' :: '-' :: body)

theorem IsLayout.append {front back : List Char} (layout : IsLayout front)
    (further : IsLayout back) : IsLayout (front ++ back) := by
  induction layout with
  | nil => exact further
  | blank blank _ inductionHypothesis => exact .blank blank inductionHypothesis
  | newline _ inductionHypothesis => exact .newline inductionHypothesis
  | @comment body rest one_line _ inductionHypothesis =>
      have joined : '-' :: '-' :: (body ++ '\n' :: rest) ++ back =
          '-' :: '-' :: (body ++ '\n' :: (rest ++ back)) := by simp
      rw [joined]
      exact .comment one_line inductionHypothesis

theorem IsTrail.behind {front back : List Char} (layout : IsLayout front)
    (further : IsTrail back) : IsTrail (front ++ back) := by
  cases further with
  | closed rest => exact .closed (layout.append rest)
  | open_comment rest one_line =>
      rw [← List.append_assoc]
      exact .open_comment (layout.append rest) one_line

namespace Scanner

theorem next_nil (line : Nat) : next ⟨line, []⟩ = (none, ⟨line, []⟩) := by
  rw [next]

theorem next_of_blanks (line : Nat) {first : Char} (blank : isBlank first = true)
    (rest : List Char) : next ⟨line, first :: rest⟩ = next ⟨line, rest.dropWhile isBlank⟩ := by
  rw [next, firstPiece_blank blank]

/-- A blank more or less in front makes no difference. -/
theorem next_blank (line : Nat) {first : Char} (blank : isBlank first = true)
    (rest : List Char) : next ⟨line, first :: rest⟩ = next ⟨line, rest⟩ := by
  rw [next_of_blanks line blank]
  cases rest with
  | nil => rfl
  | cons second rest =>
      by_cases alsoBlank : isBlank second = true
      · rw [next_of_blanks line alsoBlank, List.dropWhile_cons_of_pos alsoBlank]
      · rw [List.dropWhile_cons_of_neg alsoBlank]

theorem next_newline (line : Nat) (rest : List Char) :
    next ⟨line, '\n' :: rest⟩ = next ⟨line + 1, rest⟩ := by
  rw [next, firstPiece_newline]

theorem next_comment (line : Nat) {body after : List Char} (one_line : '\n' ∉ body)
    (line_ends : ∀ character, after.head? = some character → character = '\n') :
    next ⟨line, '-' :: '-' :: (body ++ after)⟩ = next ⟨line, after⟩ := by
  have first : firstPiece '-' ('-' :: (body ++ after)) =
      (.comment ('-' :: '-' :: body), after) :=
    firstPiece_of_isSpelled (.comment one_line) line_ends rfl
  rw [next, first]

/-- Layout in front is passed over, and its lines are counted. -/
theorem next_layout {gap : List Char} (layout : IsLayout gap) (line : Nat) (after : List Char) :
    next ⟨line, gap ++ after⟩ = next ⟨line + gap.count '\n', after⟩ := by
  induction layout generalizing line with
  | nil => rfl
  | @blank first rest blank layout inductionHypothesis =>
      have same_line : first ≠ '\n' := by
        rintro rfl
        contradiction
      rw [List.cons_append, next_blank line blank, inductionHypothesis,
        List.count_cons_of_ne same_line]
  | @newline rest layout inductionHypothesis =>
      rw [List.cons_append, next_newline, inductionHypothesis, List.count_cons_self,
        Nat.add_right_comm, Nat.add_assoc]
  | @comment body rest one_line layout inductionHypothesis =>
      have counted : ('-' :: '-' :: (body ++ '\n' :: rest)).count '\n' = 1 + rest.count '\n' := by
        simp [List.count_eq_zero_of_not_mem one_line, Nat.add_comm]
      have closed : ∀ character, ('\n' :: (rest ++ after)).head? = some character →
          character = '\n' := by
        intro character head
        cases head
        rfl
      rw [counted, ← Nat.add_assoc, ← inductionHypothesis, ← next_newline,
        ← next_comment line one_line closed]
      simp

/-- Nothing is found in layout at the end of a text. -/
theorem next_trail {trail : List Char} (isTrail : IsTrail trail) (line : Nat) :
    next ⟨line, trail⟩ = (none, ⟨line + trail.count '\n', []⟩) := by
  cases isTrail with
  | closed layout =>
      have passed := next_layout layout line []
      rw [List.append_nil, next_nil] at passed
      exact passed
  | @open_comment front body layout one_line =>
      have behind (reached : Nat) : next ⟨reached, '-' :: '-' :: body⟩ = (none, ⟨reached, []⟩) := by
        have closed : ∀ character, ([] : List Char).head? = some character → character = '\n' :=
          by simp
        have passed := next_comment reached one_line closed
        rwa [List.append_nil, next_nil] at passed
      rw [next_layout layout, behind, List.count_append]
      simp [List.count_eq_zero_of_not_mem one_line]

end Scanner

/-! ### The parts of a text -/

/-- A stretch of text between two gaps, with the gap in front of it. -/
structure Part (Content : Type) where
  gap : List Char
  content : Content
  spelling : List Char

/-- The text that parts make up with what stands behind the last of them. -/
def textOf {Content : Type} (parts : List (Part Content)) (trail : List Char) : List Char :=
  parts.flatMap (fun part => part.gap ++ part.spelling) ++ trail

section Text

variable {Content : Type}

theorem textOf_cons (part : Part Content) (parts : List (Part Content)) (trail : List Char) :
    textOf (part :: parts) trail = part.gap ++ (part.spelling ++ textOf parts trail) := by
  simp [textOf]

theorem textOf_append (parts : List (Part Content)) (front back : List Char) :
    textOf parts (front ++ back) = textOf parts front ++ back := by
  simp [textOf]

end Text

theorem textOf_drop {Content : Type} {parts : List (Part Content)} {place : Nat}
    {part : Part Content} (atPlace : parts[place]? = some part) (trail : List Char) :
    textOf (parts.drop place) trail =
      part.gap ++ (part.spelling ++ textOf (parts.drop (place + 1)) trail) := by
  rw [List.drop_eq_getElem?_toList_append, atPlace]
  exact textOf_cons part _ trail

/-- What a part is: a token, or a stretch in which nothing is recognized. -/
def Part.piece (part : Part (Option Token)) : Piece :=
  match part.content with
  | some token => .token token part.spelling
  | none => .unrecognized part.spelling

theorem Part.spelling_piece (part : Part (Option Token)) : part.piece.spelling = part.spelling := by
  unfold piece
  cases part.content <;> rfl

def Part.lexeme (part : Part (Option Token)) (line : Nat) : Lexeme :=
  match part.content with
  | some token => .token line token
  | none => .unrecognized line (String.ofList part.spelling)

theorem Part.line_lexeme (part : Part (Option Token)) (line : Nat) :
    (part.lexeme line).line = line := by
  unfold lexeme
  cases part.content <;> rfl

/-- Whether a part is what a scanner finds next, behind the gap, in a text that goes on with
`after`. -/
structure Part.IsNext (part : Part (Option Token)) (after : List Char) : Prop where
  layout : IsLayout part.gap
  lexical : IsLexical (part.piece, after)
  first : ∃ first rest, first :: rest = part.spelling ++ after ∧
    firstPiece first rest = (part.piece, after)

/-- Whether parts are what a scanner finds, one after the other, in the text that they make up
with the trail. -/
inductive AreFound (trail : List Char) : List (Part (Option Token)) → Prop where
  | ended (isTrail : IsTrail trail) : AreFound trail []
  | part {part : Part (Option Token)} {parts : List (Part (Option Token))}
      (isNext : part.IsNext (textOf parts trail)) (found : AreFound trail parts) :
      AreFound trail (part :: parts)

/-- A comment takes its line up to the end, where the text ends or the next line begins. -/
theorem comment_cases (rest : List Char) : ∃ body, '\n' ∉ body ∧
    (rest = body ∨ ∃ after, rest = body ++ '\n' :: after) := by
  have whole := List.takeWhile_append_dropWhile (p := (· ≠ '\n')) (l := rest)
  refine ⟨rest.takeWhile (· ≠ '\n'), not_mem_takeWhile (by simp), ?_⟩
  cases stop : rest.dropWhile (· ≠ '\n') with
  | nil =>
      rw [stop, List.append_nil] at whole
      exact .inl whole.symm
  | cons next after =>
      have head : (rest.dropWhile (· ≠ '\n')).head? = some next := by
        rw [stop]
        rfl
      obtain rfl : next = '\n' := by simpa using head_dropWhile next head
      rw [stop] at whole
      exact .inr ⟨after, whole.symm⟩

/-- A text is layout to its end, or layout up to a place where a token begins or nothing is
recognized. -/
theorem isTrail_or_exists_gap (text : List Char) : IsTrail text ∨
    ∃ gap first rest, text = gap ++ first :: rest ∧ IsLayout gap ∧
      IsLexical (firstPiece first rest) := by
  induction measured : text.length using Nat.strongRecOn generalizing text with
  | ind size inductionHypothesis =>
  -- Layout in front belongs to the trail or to the gap that comes behind it.
  have behind (front after : List Char) (split : text = front ++ after) (layout : IsLayout front)
      (nonempty : front ≠ []) : IsTrail text ∨ ∃ gap first rest,
        text = gap ++ first :: rest ∧ IsLayout gap ∧ IsLexical (firstPiece first rest) := by
    have shorter : after.length < size := by
      have positive := List.length_pos_iff.mpr nonempty
      rw [← measured, split, List.length_append]
      omega
    rcases inductionHypothesis after.length shorter after rfl with
      isTrail | ⟨gap, first, rest, rfl, further, lexical⟩
    · exact .inl (split ▸ isTrail.behind layout)
    · refine .inr ⟨front ++ gap, first, rest, ?_, layout.append further, lexical⟩
      rw [split, List.append_assoc]
  cases text with
  | nil => exact .inl (.closed .nil)
  | cons first rest =>
      by_cases blank : isBlank first = true
      · exact behind [first] rest rfl (.blank blank .nil) (List.cons_ne_nil _ _)
      by_cases newline : first = '\n'
      · subst newline
        exact behind ['\n'] rest rfl (.newline .nil) (List.cons_ne_nil _ _)
      by_cases comment : first = '-' ∧ rest.head? = some '-'
      · obtain ⟨rfl, second⟩ := comment
        obtain ⟨rest, rfl⟩ := List.head?_eq_some_iff.mp second
        obtain ⟨body, one_line, rfl | ⟨after, rfl⟩⟩ := comment_cases rest
        · exact .inl (.open_comment .nil one_line)
        · apply behind ('-' :: '-' :: (body ++ ['\n'])) after (by simp)
            (.comment one_line .nil) (List.cons_ne_nil _ _)
      · exact .inr ⟨[], first, rest, rfl, .nil,
          isLexical_firstPiece (Bool.eq_false_iff.mpr blank) newline comment⟩

/-- The parts of a text can be found one after the other. -/
theorem exists_areFound (text : List Char) :
    ∃ parts trail, text = textOf parts trail ∧ AreFound trail parts := by
  induction measured : text.length using Nat.strongRecOn generalizing text with
  | ind size inductionHypothesis =>
  rcases isTrail_or_exists_gap text with isTrail | ⟨gap, first, rest, rfl, layout, lexical⟩
  · exact ⟨[], text, rfl, .ended isTrail⟩
  · have shorter := length_firstPiece_lt first rest
    obtain ⟨whole, _⟩ := splits_firstPiece first rest
    rcases found : firstPiece first rest with ⟨piece, left⟩
    rw [found] at whole shorter lexical
    have smaller : left.length < size := by
      rw [← measured, List.length_append]
      exact Nat.lt_add_left _ shorter
    obtain ⟨parts, trail, rfl, further⟩ := inductionHypothesis left.length smaller left rfl
    obtain ⟨part, sameGap, rfl⟩ : ∃ part : Part (Option Token), part.gap = gap ∧
        part.piece = piece := by
      cases lexical with
      | @token token spelling => exact ⟨⟨gap, some token, spelling⟩, rfl, rfl⟩
      | @stray spelling => exact ⟨⟨gap, none, spelling⟩, rfl, rfl⟩
    rw [part.spelling_piece] at whole
    refine ⟨part :: parts, trail, ?_, .part ⟨sameGap ▸ layout, lexical, ?_⟩ further⟩
    · rw [textOf_cons, sameGap, whole]
    · exact ⟨first, rest, whole.symm, found⟩

theorem Part.IsNext.one_line {part : Part (Option Token)} {after : List Char}
    (isNext : part.IsNext after) : '\n' ∉ part.spelling := by
  rw [← part.spelling_piece]
  exact isNext.lexical.one_line

theorem Part.IsNext.next_eq {part : Part (Option Token)} {after : List Char}
    (isNext : part.IsNext after) (line : Nat) :
    Scanner.next ⟨line, part.gap ++ (part.spelling ++ after)⟩ =
      (some (part.lexeme (line + part.gap.count '\n')), ⟨line + part.gap.count '\n', after⟩) := by
  obtain ⟨first, rest, text, found⟩ := isNext.first
  rw [Scanner.next_layout isNext.layout, ← text, Scanner.next, found]
  unfold Part.piece Part.lexeme
  cases part.content <;> rfl

/-! ### What a scanner does with the parts -/

theorem count_textOf_cons {part : Part (Option Token)} (one_line : '\n' ∉ part.spelling)
    (parts : List (Part (Option Token))) (trail : List Char) :
    (textOf (part :: parts) trail).count '\n' =
      part.gap.count '\n' + (textOf parts trail).count '\n' := by
  rw [textOf_cons, List.count_append, List.count_append, List.count_eq_zero_of_not_mem one_line,
    Nat.zero_add]

namespace Scanner

theorem scan_of_none {scanner stop : Scanner} (ended : scanner.next = (none, stop)) :
    scanner.scan = ([], stop) := by
  rw [scan]
  split
  · simp_all
  · simp_all

theorem scan_of_some {scanner later : Scanner} {lexeme : Lexeme}
    (found : scanner.next = (some lexeme, later)) :
    scanner.scan = (lexeme :: later.scan.1, later.scan.2) := by
  rw [scan]
  split
  · simp_all
  · simp_all

/-- The place behind the next lexeme. -/
def skip (scanner : Scanner) : Scanner := scanner.next.2

theorem line_next {scanner later : Scanner} {lexeme : Lexeme}
    (found : scanner.next = (some lexeme, later)) : later.line = lexeme.line := by
  fun_induction next scanner with
  | case1 line => simp at found
  | case2 line first rest left spelling piece inductionHypothesis => exact inductionHypothesis found
  | case3 line first rest left piece inductionHypothesis => exact inductionHypothesis found
  | case4 line first rest left spelling piece inductionHypothesis => exact inductionHypothesis found
  | case5 line first rest left token spelling piece =>
      cases found
      rfl
  | case6 line first rest left spelling piece =>
      cases found
      rfl

end Scanner

/-- A token with its line, as it is met in the text. -/
def LocatedToken.lexeme (located : LocatedToken) : Lexeme := .token located.line located.token

/-- What is wrong with a lexeme, if it is no token. -/
def Lexeme.error? : Lexeme → Option TextError
  | .token _ _ => none
  | .unrecognized line text => some (.unrecognized line text)

namespace Scanner

/-- Tokens are handed out exactly if nothing else is met. -/
theorem tokenize_eq_ok_iff {scanner : Scanner} {tokenized : Tokenized} :
    scanner.tokenize = .ok tokenized ↔
      scanner.scan.1 = tokenized.tokens.map LocatedToken.lexeme ∧
        scanner.scan.2.line = tokenized.lastLine := by
  obtain ⟨tokens, lastLine⟩ := tokenized
  fun_induction tokenize scanner generalizing tokens with
  | case1 scanner stop ended =>
      rw [scan_of_none ended]
      simp [eq_comm]
  | case2 scanner line text later found =>
      rw [scan_of_some found]
      cases tokens <;> simp [LocatedToken.lexeme]
  | case3 scanner line token later found error refused inductionHypothesis =>
      rw [scan_of_some found]
      cases tokens with
      | nil => simp
      | cons located tokens =>
          have unfinished := inductionHypothesis tokens
          rw [refused] at unfinished
          simp_all
  | case4 scanner line token later found behind accepted inductionHypothesis =>
      have same_line : later.line = line := line_next found
      rw [scan_of_some found]
      cases tokens with
      | nil => simp
      | cons located tokens =>
          have finished := inductionHypothesis tokens
          rw [accepted] at finished
          obtain ⟨others, otherLast⟩ := behind
          obtain ⟨other, otherLine⟩ := located
          simp only [Except.ok.injEq, Tokenized.mk.injEq] at finished
          simp only [Except.ok.injEq, Tokenized.mk.injEq, List.map_cons, List.cons.injEq,
            LocatedToken.mk.injEq, LocatedToken.lexeme, Lexeme.token.injEq, same_line]
          rw [and_assoc, finished, and_comm (a := token = other), ← and_assoc]

/-- The error is the first stretch in which nothing is recognized. -/
theorem tokenize_eq_error_iff {scanner : Scanner} {error : TextError} :
    scanner.tokenize = .error error ↔ scanner.scan.1.findSome? Lexeme.error? = some error := by
  fun_induction tokenize scanner with
  | case1 scanner stop ended =>
      rw [scan_of_none ended]
      simp
  | case2 scanner line text later found =>
      rw [scan_of_some found, List.findSome?_cons]
      simp [Lexeme.error?]
  | case3 scanner line token later found first refused inductionHypothesis =>
      rw [scan_of_some found, List.findSome?_cons]
      simpa [Lexeme.error?, refused] using inductionHypothesis
  | case4 scanner line token later found behind accepted inductionHypothesis =>
      rw [scan_of_some found, List.findSome?_cons]
      simpa [Lexeme.error?, accepted] using inductionHypothesis

end Scanner

/-! ### The lines of the parts -/

namespace AreFound

variable {parts : List (Part (Option Token))} {trail : List Char}

theorem isTrail (found : AreFound trail parts) : IsTrail trail := by
  induction found with
  | ended isTrail => exact isTrail
  | part _ _ inductionHypothesis => exact inductionHypothesis

/-- From the place of any part on, what is found is the parts from there on. -/
theorem drop (found : AreFound trail parts) (place : Nat) :
    AreFound trail (parts.drop place) := by
  induction found generalizing place with
  | ended isTrail => simpa using .ended isTrail
  | part isNext found inductionHypothesis =>
      cases place with
      | zero => exact .part isNext found
      | succ place => exact inductionHypothesis place

theorem isNext (found : AreFound trail parts) {place : Nat} {part : Part (Option Token)}
    (atPlace : parts[place]? = some part) :
    part.IsNext (textOf (parts.drop (place + 1)) trail) := by
  have onward := found.drop place
  rw [List.drop_eq_getElem?_toList_append, atPlace] at onward
  cases onward with
  | part isNext _ => exact isNext

/-- Each call goes on to the place behind the next part. -/
theorem skip_iterate (found : AreFound trail parts) (line : Nat) {place : Nat}
    (bound : place ≤ parts.length) : Scanner.skip^[place] ⟨line, textOf parts trail⟩ =
      ⟨line + (textOf (parts.take place) []).count '\n', textOf (parts.drop place) trail⟩ := by
  induction found generalizing line place with
  | ended isTrail =>
      obtain rfl : place = 0 := by simpa using bound
      rfl
  | @part part parts isNext found inductionHypothesis =>
      cases place with
      | zero => rfl
      | succ place =>
          have onward : Scanner.skip ⟨line, textOf (part :: parts) trail⟩ =
              ⟨line + part.gap.count '\n', textOf parts trail⟩ := by
            rw [Scanner.skip, textOf_cons, isNext.next_eq line]
          rw [Function.iterate_succ_apply, onward,
            inductionHypothesis _ (Nat.le_of_succ_le_succ bound), List.take_succ_cons,
            count_textOf_cons isNext.one_line, List.drop_succ_cons, Nat.add_assoc]

theorem scan_eq (found : AreFound trail parts) (line : Nat) :
    Scanner.scan ⟨line, textOf parts trail⟩ =
      (parts.mapIdx fun place part =>
        part.lexeme (line + (textOf (parts.take place) part.gap).count '\n'),
      ⟨line + (textOf parts trail).count '\n', []⟩) := by
  induction found generalizing line with
  | ended isTrail => exact Scanner.scan_of_none (Scanner.next_trail isTrail line)
  | @part part parts isNext found inductionHypothesis =>
      have one_line := isNext.one_line
      rw [count_textOf_cons one_line, textOf_cons, Scanner.scan_of_some (isNext.next_eq line),
        inductionHypothesis, List.mapIdx_cons, ← Nat.add_assoc]
      simp only [List.take_succ_cons, count_textOf_cons one_line, Nat.add_assoc]
      rfl

/-- Lines never decrease from one lexeme to the next, and none is behind the last. -/
theorem lines_ordered (found : AreFound trail parts) (line : Nat) :
    (Scanner.scan ⟨line, textOf parts trail⟩).1.Pairwise
        (fun earlier later => earlier.line ≤ later.line) ∧
      ∀ lexeme ∈ (Scanner.scan ⟨line, textOf parts trail⟩).1, line ≤ lexeme.line ∧
        lexeme.line ≤ (Scanner.scan ⟨line, textOf parts trail⟩).2.line := by
  induction found generalizing line with
  | ended isTrail =>
      have ended := Scanner.scan_of_none (Scanner.next_trail isTrail line)
      show (Scanner.scan ⟨line, trail⟩).1.Pairwise _ ∧ ∀ lexeme ∈ (Scanner.scan ⟨line, trail⟩).1, _
      simp [ended]
  | @part part parts isNext found inductionHypothesis =>
      obtain ⟨ordered, bounded⟩ := inductionHypothesis (line + part.gap.count '\n')
      have last : line + part.gap.count '\n' ≤
          (Scanner.scan ⟨line + part.gap.count '\n', textOf parts trail⟩).2.line := by
        rw [found.scan_eq]
        exact Nat.le_add_right _ _
      rw [textOf_cons, Scanner.scan_of_some (isNext.next_eq line)]
      constructor
      · apply List.Pairwise.cons _ ordered
        intro lexeme member
        rw [part.line_lexeme]
        exact (bounded lexeme member).1
      · intro lexeme member
        rcases List.mem_cons.mp member with rfl | later
        · rw [part.line_lexeme]
          exact ⟨Nat.le_add_right _ _, last⟩
        · exact ⟨le_trans (Nat.le_add_right _ _) (bounded lexeme later).1,
            (bounded lexeme later).2⟩

end AreFound

/-! ### The scan of a text -/

/-- The line of what stands behind some parts and a gap, one more than the ends of lines in
front of it. -/
def lineBehind {Content : Type} (earlier : List (Part Content)) (gap : List Char) : Nat :=
  1 + (textOf earlier gap).count '\n'

theorem lineBehind_eq {Content : Type} (earlier : List (Part Content)) (gap : List Char) :
    lineBehind earlier gap = lineBehind earlier [] + gap.count '\n' := by
  have whole := textOf_append earlier [] gap
  rw [List.nil_append] at whole
  rw [lineBehind, whole, List.count_append, ← Nat.add_assoc]
  rfl

/-- Whether a part can stand in a text that goes on with `after`: behind layout, a token that is
spelled there, or a stretch in which nothing is. Nothing longer is spelled in its place. -/
structure Part.Stands (part : Part (Option Token)) (after : List Char) : Prop where
  layout : IsLayout part.gap
  nonempty : part.spelling ≠ []
  one_line : '\n' ∉ part.spelling
  spelled : ∀ token, part.content = some token → Spells token part.spelling
  stray : part.content = none → IsStray part.spelling after
  longest : ∀ piece : Piece, piece.IsSpelled → piece.spelling <+: part.spelling ++ after →
    part.content ≠ none ∧ piece.spelling.length ≤ part.spelling.length

/-- Whether a text consists of parts and a trail, each part is what one more call of a scanner
finds, with its line, and the tokens of the text are those of the parts. -/
structure IsScannedAs (text : String) (parts : List (Part (Option Token)))
    (trail : List Char) : Prop where
  split : text.toList = textOf parts trail
  stands : ∀ (place : Nat) (part : Part (Option Token)), parts[place]? = some part →
    part.Stands (textOf (parts.drop (place + 1)) trail)
  trail : IsTrail trail
  call : ∀ (place : Nat) (part : Part (Option Token)), parts[place]? = some part →
    (Scanner.skip^[place] (.start text)).next =
        (some (part.lexeme (lineBehind (parts.take place) part.gap)),
          Scanner.skip^[place + 1] (.start text)) ∧
      (Scanner.skip^[place + 1] (.start text)).line = lineBehind (parts.take place) part.gap
  ended : (Scanner.skip^[parts.length] (.start text)).next =
    (none, ⟨1 + text.toList.count '\n', []⟩)
  lexemes : lexemes text = parts.mapIdx fun place part =>
    part.lexeme (lineBehind (parts.take place) part.gap)
  lastLine : lastLine text = 1 + text.toList.count '\n'
  refused : ∀ error, tokenize text = .error error ↔
    (GrammarText.lexemes text).findSome? Lexeme.error? = some error
  accepted : ∀ tokenized, tokenize text = .ok tokenized ↔
    GrammarText.lexemes text = tokenized.tokens.map LocatedToken.lexeme ∧
      GrammarText.lastLine text = tokenized.lastLine
  ordered : ∀ tokenized, tokenize text = .ok tokenized →
    tokenized.tokens.Pairwise (fun earlier later => earlier.line ≤ later.line) ∧
      ∀ located ∈ tokenized.tokens, located.line ≤ tokenized.lastLine

theorem Part.IsNext.stands {part : Part (Option Token)} {after : List Char}
    (isNext : part.IsNext after) : part.Stands after where
  layout := isNext.layout
  nonempty := by
    rw [← part.spelling_piece]
    exact isNext.lexical.ne_nil
  one_line := isNext.one_line
  spelled := by
    intro token content
    have lexical := isNext.lexical
    rw [Part.piece, content] at lexical
    cases lexical with
    | token spells => exact spells
  stray := by
    intro content
    have lexical := isNext.lexical
    rw [Part.piece, content] at lexical
    cases lexical with
    | stray stray => exact stray
  longest := by
    intro piece spelled isPrefix
    obtain ⟨behind, whole⟩ := isPrefix
    obtain ⟨first, rest, text, found⟩ := isNext.first
    obtain ⟨alsoSpelled, longest⟩ := longest_firstPiece spelled (text.trans whole.symm)
    rw [found] at alsoSpelled longest
    constructor
    · intro content
      rw [Part.piece, content] at alsoSpelled
      cases alsoSpelled
    · rwa [part.spelling_piece] at longest

/-- Every text is scanned: the lexemes and the gaps between them make it up, each lexeme is the
longest that is spelled where it begins, and each is met on the line it stands on. -/
theorem exists_isScannedAs (text : String) : ∃ parts trail, IsScannedAs text parts trail := by
  obtain ⟨parts, trail, split, found⟩ := exists_areFound text.toList
  have started : Scanner.start text = ⟨1, textOf parts trail⟩ := by
    rw [Scanner.start, split]
  have reached {place : Nat} (bound : place ≤ parts.length) :
      Scanner.skip^[place] (.start text) =
        ⟨lineBehind (parts.take place) [], textOf (parts.drop place) trail⟩ := by
    rw [started, found.skip_iterate 1 bound, lineBehind]
  have scanned := found.scan_eq 1
  rw [← started] at scanned
  refine ⟨parts, trail, {
    split := split
    stands := fun place part atPlace => (found.isNext atPlace).stands
    trail := found.isTrail
    call := ?_
    ended := ?_
    lexemes := congrArg Prod.fst scanned
    lastLine := ?_
    refused := fun error => Scanner.tokenize_eq_error_iff
    accepted := fun tokenized => Scanner.tokenize_eq_ok_iff
    ordered := ?_ }⟩
  · intro place part atPlace
    have called : (Scanner.skip^[place] (.start text)).next =
        (some (part.lexeme (lineBehind (parts.take place) part.gap)),
          ⟨lineBehind (parts.take place) part.gap, textOf (parts.drop (place + 1)) trail⟩) := by
      have bound := (List.getElem?_eq_some_iff.mp atPlace).1
      rw [reached (Nat.le_of_lt bound), textOf_drop atPlace, (found.isNext atPlace).next_eq,
        ← lineBehind_eq]
    have later : Scanner.skip^[place + 1] (.start text) =
        ⟨lineBehind (parts.take place) part.gap, textOf (parts.drop (place + 1)) trail⟩ := by
      rw [Function.iterate_succ_apply', Scanner.skip, called]
    rw [later]
    exact ⟨called, rfl⟩
  · rw [reached le_rfl, List.take_length, List.drop_length]
    show Scanner.next ⟨lineBehind parts [], trail⟩ = _
    rw [Scanner.next_trail found.isTrail, ← lineBehind_eq, lineBehind, split]
  · rw [lastLine, scanned, split]
  · intro tokenized accepted
    obtain ⟨ordered, bounded⟩ := found.lines_ordered 1
    obtain ⟨same, last⟩ := Scanner.tokenize_eq_ok_iff.mp accepted
    rw [← started, same, last] at bounded
    rw [← started, same] at ordered
    constructor
    · have inTokens := List.pairwise_map.mp ordered
      exact inTokens
    · intro located member
      exact (bounded _ (List.mem_map_of_mem member)).2

end Predictive.GrammarText
