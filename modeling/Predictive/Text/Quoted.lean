import Predictive.Text.Unprintable
import Predictive.Text.GraphemeExtend

/-!
Contract: text between double quotes, with nothing in it that cannot be seen.

Owns: which characters are escaped and how.
Does not own: the tables of characters that cannot be seen alone.
-/

namespace Predictive.Text

/-- Code point in lower-case hexadecimal without leading zeros. -/
def hexadecimal (character : Char) : List Char :=
  Nat.toDigits 16 character.toNat

/-- One character as it stands between double quotes: the delimiter and the escape
sign are escaped, four control characters have short names, any other that is
unprintable or combining is given by its code point. -/
def escape (character : Char) : List Char :=
  if character = '"' then ['\\', '"']
  else if character = '\\' then ['\\', '\\']
  else if character = '\t' then ['\\', 't']
  else if character = '\r' then ['\\', 'r']
  else if character = '\n' then ['\\', 'n']
  else if character = '\x00' then ['\\', '0']
  else if isCombining character || isUnprintable character then
    ['\\', 'u', '\x7b'] ++ hexadecimal character ++ ['\x7d']
  else [character]

def quoted (text : String) : String :=
  String.ofList ('"' :: text.toList.flatMap escape ++ ['"'])

end Predictive.Text
