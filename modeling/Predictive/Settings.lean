import Predictive.Text.Quoted

/-!
Contract: the two settings of a table generation, each checked before any work.

Owns: the range of lookahead lengths, the report details, their errors.
Does not own: what a lookahead length means to a table, or what a detail shows.

A value of `Settings` carries the proof that its length is in range, so no later
stage checks it again.
-/

namespace Predictive

/-- Longest lookahead that tables are built for. -/
def longestLookahead : Nat := 100

/-- The lengths that tables are built for. -/
def ValidLookahead (length : Nat) : Prop :=
  1 ≤ length ∧ length ≤ longestLookahead

instance (length : Nat) : Decidable (ValidLookahead length) := by
  unfold ValidLookahead
  infer_instance

/-- How much a report shows besides the tables. -/
inductive Detail where
  | full
  | compact
deriving DecidableEq, Repr

inductive SettingsError where
  | lookahead (length : Nat)
  | detail (text : String)
deriving DecidableEq, Repr

def lookaheadMessage (length : Nat) : String :=
  s!"invalid lookahead length {length} (expected 1..={longestLookahead})"

def SettingsError.message : SettingsError → String
  | .lookahead length => lookaheadMessage length
  | .detail text =>
      "invalid output detail " ++ Text.quoted text ++ " (expected `full` or `compact`)"

namespace Detail

def text : Detail → String
  | .full => "full"
  | .compact => "compact"

def ofText (text : String) : Except SettingsError Detail :=
  if text = "full" then .ok .full
  else if text = "compact" then .ok .compact
  else .error (.detail text)

/-- The detail of a report when none is asked for. -/
def default : Detail := .full

theorem ofText_text (detail : Detail) : ofText detail.text = .ok detail := by
  cases detail <;> rfl

end Detail

structure Settings where
  lookahead : Nat
  detail : Detail
  valid : ValidLookahead lookahead
deriving DecidableEq, Repr

namespace Settings

def checkLookahead (length : Nat) : Except SettingsError Nat :=
  if ValidLookahead length then .ok length else .error (.lookahead length)

def make (length : Nat) (detail : Detail) : Except SettingsError Settings :=
  if valid : ValidLookahead length then .ok ⟨length, detail, valid⟩
  else .error (.lookahead length)

end Settings

end Predictive
