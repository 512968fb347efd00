import Predictive.Proofs.GrammarText.Scanning

/-!
Contract: tokens written with layout between them are read back, whatever the layout.

Owns: tokens as they are laid out in a text, and the tokens and lines read from it.
Does not own: texts in which tokens touch, or in which not everything is a token.

A name is the only token that can go on into what stands behind it. Neither layout nor the end
of a text begins with a character of a name, so layout between two tokens is enough to keep the
first of them from taking anything of the second.
-/

namespace Predictive.GrammarText

/-- Whether parts are tokens, spelled in any of their ways behind any layout, that no two of
them touch, and the trail is layout. -/
structure IsLaidOut (parts : List (Part Token)) (trail : List Char) : Prop where
  spelled : ∀ part ∈ parts, Spells part.content part.spelling
  layout : ∀ part ∈ parts, IsLayout part.gap
  apart : ∀ part ∈ parts.tail, part.gap ≠ []
  trail : IsTrail trail

/-- The tokens of parts, each on the line on which it stands. -/
def locate (parts : List (Part Token)) : List LocatedToken :=
  parts.mapIdx fun place part => ⟨part.content, lineBehind (parts.take place) part.gap⟩

/-- A token as a scanner meets it. -/
def Part.met (part : Part Token) : Part (Option Token) :=
  ⟨part.gap, some part.content, part.spelling⟩

theorem textOf_map_met (parts : List (Part Token)) (trail : List Char) :
    textOf (parts.map Part.met) trail = textOf parts trail := by
  rw [textOf, textOf, List.flatMap_map]
  rfl

/-! ### Where a name ends -/

theorem isNameRest_of_isBlank {character : Char} (blank : isBlank character = true) :
    isNameRest character = false := by
  simp only [isBlank, Bool.or_eq_true, decide_eq_true_eq] at blank
  rcases blank with ((rfl | rfl) | rfl) | rfl <;> rfl

theorem IsLayout.head {gap : List Char} (layout : IsLayout gap) (next : Char)
    (head : gap.head? = some next) : isNameRest next = false := by
  cases layout with
  | nil => cases head
  | blank blank _ =>
      cases head
      exact isNameRest_of_isBlank blank
  | newline _ =>
      cases head
      rfl
  | comment _ _ =>
      cases head
      rfl

theorem IsTrail.head {trail : List Char} (isTrail : IsTrail trail) (next : Char)
    (head : trail.head? = some next) : isNameRest next = false := by
  cases isTrail with
  | closed layout => exact layout.head next head
  | @open_comment front body layout _ =>
      cases front with
      | nil =>
          cases head
          rfl
      | cons first front => exact layout.head next head

namespace IsLaidOut

variable {parts : List (Part Token)} {trail : List Char}

/-- Behind a part there are only tokens that are kept apart from it. -/
theorem head_behind {part : Part Token} (laidOut : IsLaidOut (part :: parts) trail) (next : Char)
    (head : (textOf parts trail).head? = some next) : isNameRest next = false := by
  cases parts with
  | nil => exact laidOut.trail.head next head
  | cons second parts =>
      have nonempty : second.gap ≠ [] := laidOut.apart second List.mem_cons_self
      have layout : IsLayout second.gap := laidOut.layout second (by simp)
      obtain ⟨first, rest, same⟩ := List.exists_cons_of_ne_nil nonempty
      rw [textOf_cons, same] at head
      cases head
      exact layout.head next (by rw [same]; rfl)

theorem tail {part : Part Token} (laidOut : IsLaidOut (part :: parts) trail) :
    IsLaidOut parts trail where
  spelled := fun other member => laidOut.spelled other (List.mem_cons_of_mem part member)
  layout := fun other member => laidOut.layout other (List.mem_cons_of_mem part member)
  apart := fun other member => laidOut.apart other (List.mem_of_mem_tail member)
  trail := laidOut.trail

theorem isNext {part : Part Token} (laidOut : IsLaidOut (part :: parts) trail) :
    part.met.IsNext (textOf parts trail) := by
  have spells : Spells part.content part.spelling := laidOut.spelled part List.mem_cons_self
  have ends : (Piece.token part.content part.spelling).EndsAt (textOf parts trail) :=
    endsAt_of_head laidOut.head_behind
  obtain ⟨first, rest, same⟩ := List.exists_cons_of_ne_nil spells.ne_nil
  refine ⟨laidOut.layout part List.mem_cons_self, .token spells,
    first, rest ++ textOf parts trail, ?_, ?_⟩
  · show first :: (rest ++ textOf parts trail) = part.spelling ++ textOf parts trail
    rw [same, List.cons_append]
  · apply firstPiece_of_spells spells ends
    rw [same, List.cons_append]

theorem areFound (laidOut : IsLaidOut parts trail) : AreFound trail (parts.map Part.met) := by
  induction parts with
  | nil => exact .ended laidOut.trail
  | cons part parts inductionHypothesis =>
      apply AreFound.part _ (inductionHypothesis laidOut.tail)
      show part.met.IsNext (textOf (parts.map Part.met) trail)
      rw [textOf_map_met]
      exact laidOut.isNext

end IsLaidOut

/-- The tokens of parts are met one after the other. -/
theorem mapIdx_met (parts : List (Part Token)) :
    (parts.map Part.met).mapIdx (fun place part =>
        part.lexeme (lineBehind ((parts.map Part.met).take place) part.gap)) =
      (locate parts).map LocatedToken.lexeme := by
  apply List.ext_getElem?
  intro place
  rw [List.getElem?_mapIdx, List.getElem?_map, List.getElem?_map, locate, List.getElem?_mapIdx,
    Option.map_map, Option.map_map]
  congr 1
  funext part
  show Lexeme.token (lineBehind ((parts.map Part.met).take place) part.gap) part.content =
    .token (lineBehind (parts.take place) part.gap) part.content
  rw [← List.map_take, lineBehind, textOf_map_met]
  rfl

/-- Tokens that are laid out are read back from the text, each on its line. -/
theorem tokenize_textOf {parts : List (Part Token)} {trail : List Char}
    (laidOut : IsLaidOut parts trail) : tokenize (String.ofList (textOf parts trail)) =
      .ok ⟨locate parts, 1 + (textOf parts trail).count '\n'⟩ := by
  have scanned := laidOut.areFound.scan_eq 1
  rw [textOf_map_met] at scanned
  apply Scanner.tokenize_eq_ok_iff.mpr
  rw [Scanner.start, String.toList_ofList, scanned]
  exact ⟨mapIdx_met parts, rfl⟩

/-- Quotes in a name and in a comment, and literals of which each contains the quote of the
other. -/
def crowded : List (Part Token) :=
  [ ⟨[], .name "E'", ['E', '\'']⟩
  , ⟨['-', '-', '\'', '%', '%', '\n'], .colon, [':']⟩
  , ⟨['\t'], .literal "--'", ['"', '-', '-', '\'', '"']⟩
  , ⟨['\r', '\n', ' '], .literal "\"", ['\'', '"', '\'']⟩ ]

theorem isLaidOut_crowded : IsLaidOut crowded ['-', '-', '"'] := by
  refine ⟨?_, ?_, by simp [crowded], @IsTrail.open_comment [] ['"'] .nil (by decide)⟩
  · intro part member
    simp only [crowded, List.mem_cons, List.not_mem_nil, or_false] at member
    rcases member with rfl | rfl | rfl | rfl
    · exact @Spells.name 'E' ['\''] rfl (by simp [isNameRest])
    · exact .colon
    · exact @Spells.literal '"' ['-', '-', '\''] rfl (by simp) (by decide) (by decide)
    · exact @Spells.literal '\'' ['"'] rfl (by simp) (by decide) (by decide)
  · intro part member
    simp only [crowded, List.mem_cons, List.not_mem_nil, or_false] at member
    rcases member with rfl | rfl | rfl | rfl
    · exact .nil
    · exact @IsLayout.comment ['\'', '%', '%'] [] (by decide) .nil
    · exact .blank rfl .nil
    · exact .blank rfl (.newline (.blank rfl .nil))

theorem tokenize_textOf_crowded : IsLaidOut crowded ['-', '-', '"'] ∧
    tokenize "E'--'%%\n:\t\"--'\"\r\n '\"'--\"" =
      .ok ⟨[⟨.name "E'", 1⟩, ⟨.colon, 2⟩, ⟨.literal "--'", 2⟩, ⟨.literal "\"", 3⟩], 3⟩ := by
  have text : String.ofList (textOf crowded ['-', '-', '"']) =
      "E'--'%%\n:\t\"--'\"\r\n '\"'--\"" := by rfl
  have located : locate crowded =
      [⟨.name "E'", 1⟩, ⟨.colon, 2⟩, ⟨.literal "--'", 2⟩, ⟨.literal "\"", 3⟩] := by decide
  have last : (textOf crowded ['-', '-', '"']).count '\n' = 2 := by decide
  have read := tokenize_textOf isLaidOut_crowded
  rw [text, located, last] at read
  exact ⟨isLaidOut_crowded, read⟩

end Predictive.GrammarText
