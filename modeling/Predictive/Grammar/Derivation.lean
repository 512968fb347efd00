import Predictive.Grammar.Basic

/-!
Contract: what a grammar derives, independently of any table.

Owns: leftmost derivations by rule number, left parses, the beginnings of derived words,
right contexts, and the LL property.
Does not own: how any of these is computed.

A derivation is the list of its rule numbers, and `replay` is the only thing that gives
such a list a meaning: each rule replaces the leftmost nonterminal, which has to be its
left side.
-/

namespace Predictive

/-- A word as a symbol string. -/
def terminalString (word : List Terminal) : List Symbol := word.map .terminal

/-- Replaces the leftmost nonterminal by a rule of it. -/
def replaceLeftmost (rule : Rule) : List Symbol → Option (List Symbol)
  | [] => none
  | .terminal number :: rest => (replaceLeftmost rule rest).map (.terminal number :: ·)
  | .nonterminal number :: rest =>
      if number = rule.left then some (rule.right ++ rest) else none

namespace Grammar

/-- Applies the rules with the given numbers in order, each to the leftmost nonterminal. -/
def replay (grammar : Grammar) : List Nat → List Symbol → Option (List Symbol)
  | [], form => some form
  | number :: numbers, form => do
      let rule ← grammar.rule? number
      let next ← replaceLeftmost rule form
      grammar.replay numbers next

/-- Whether some leftmost derivation leads from one form to the other. -/
def Derives (grammar : Grammar) (form target : List Symbol) : Prop :=
  ∃ numbers, grammar.replay numbers form = some target

/-- Whether rule numbers derive a word from the start symbol. -/
def IsLeftParse (grammar : Grammar) (numbers : List Nat) (word : List Terminal) : Prop :=
  grammar.replay numbers [.nonterminal grammar.start] = some (terminalString word)

instance (grammar : Grammar) (numbers : List Nat) (word : List Terminal) :
    Decidable (grammar.IsLeftParse numbers word) :=
  inferInstanceAs (Decidable (_ = _))

/-- The language: the words that have a left parse. -/
def Generates (grammar : Grammar) (word : List Terminal) : Prop :=
  ∃ numbers, grammar.IsLeftParse numbers word

/-- A derived word shorter than the length, or the first `length` terminals of a form
that is derived. -/
def IsBeginning (grammar : Grammar) (length : Nat) (form : List Symbol)
    (word : List Terminal) : Prop :=
  (word.length < length ∧ grammar.Derives form (terminalString word)) ∨
    (word.length = length ∧ ∃ rest, grammar.Derives form (terminalString word ++ rest))

/-- A nonterminal with what stands behind it in a sentential form, as far as the nesting
of right sides tells. -/
inductive RightContext (grammar : Grammar) : Nonterminal → List Symbol → Prop where
  | start : RightContext grammar grammar.start []
  | occurrence {rule : Rule} {before behind below : List Symbol} {nonterminal : Nonterminal}
      (outer : RightContext grammar rule.left below) (member : rule ∈ grammar.rules)
      (split : rule.right = before ++ .nonterminal nonterminal :: behind) :
      RightContext grammar nonterminal (behind ++ below)

/-- Whether a nonterminal derives, in at least one step, a form that begins with it. -/
def BeginsWithItself (grammar : Grammar) (nonterminal : Nonterminal) : Prop :=
  ∃ number numbers rest,
    grammar.replay (number :: numbers) [.nonterminal nonterminal] =
      some (.nonterminal nonterminal :: rest)

/-- Whether every nonterminal derives a word. -/
def Productive (grammar : Grammar) : Prop :=
  ∀ nonterminal < grammar.nonterminals.size,
    ∃ word, grammar.Derives [.nonterminal nonterminal] (terminalString word)

/-- Whether the next `length` terminals always tell which rule a leftmost derivation
applies. -/
def IsLL (grammar : Grammar) (length : Nat) : Prop :=
  ∀ (consumed : List Terminal) (behind : List Symbol) (first second : Rule)
    (firstWord secondWord : List Terminal),
    first ∈ grammar.rules → second ∈ grammar.rules → first.left = second.left →
    grammar.Derives [.nonterminal grammar.start]
      (terminalString consumed ++ .nonterminal first.left :: behind) →
    grammar.Derives (first.right ++ behind) (terminalString firstWord) →
    grammar.Derives (second.right ++ behind) (terminalString secondWord) →
    firstWord.take length = secondWord.take length →
    first.right = second.right

theorem replay_append (grammar : Grammar) (left right : List Nat) (form : List Symbol) :
    grammar.replay (left ++ right) form =
      (grammar.replay left form).bind (grammar.replay right) := by
  induction left generalizing form with
  | nil => rfl
  | cons number left inductionHypothesis =>
      simp only [List.cons_append, replay, Option.bind_eq_bind, Option.bind_assoc]
      congr
      funext rule
      congr
      funext next
      exact inductionHypothesis next

theorem Derives.refl (grammar : Grammar) (form : List Symbol) : grammar.Derives form form :=
  ⟨[], rfl⟩

theorem Derives.trans {grammar : Grammar} {form middle target : List Symbol}
    (first : grammar.Derives form middle) (second : grammar.Derives middle target) :
    grammar.Derives form target := by
  obtain ⟨left, leftReplay⟩ := first
  obtain ⟨right, rightReplay⟩ := second
  refine ⟨left ++ right, ?_⟩
  rw [replay_append, leftReplay]
  exact rightReplay

end Grammar

end Predictive
