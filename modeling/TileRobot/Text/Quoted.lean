import TileRobot.Text.Unprintable
/-!
# Quoted text

The form in which a fault report shows a text or a character: between quotes, with a backslash
before what could be mistaken, and with the number of every character that has no glyph of its own.
-/

namespace TileRobot.Text

/-- The mark around a quoted text. -/
def doubleQuote : Char := '\x22'

/-- The mark around a quoted character. -/
def singleQuote : Char := '\x27'

/-- The digits of `n` to the base 16, in lower case. -/
def hexDigits (n : Nat) : List Char := Nat.toDigits 16 n

/-- One character as it stands between two marks `mark`. -/
def escape (mark : Char) (c : Char) : List Char :=
  if c = '\x00' then ['\\', '0']
  else if c = '\t' then ['\\', 't']
  else if c = '\r' then ['\\', 'r']
  else if c = '\n' then ['\\', 'n']
  else if c = '\\' ∨ c = mark then ['\\', c]
  else if isUnprintable c then ['\\', 'u', '\x7b'] ++ hexDigits c.toNat ++ ['\x7d']
  else [c]

/-- A text between double quotes. -/
def quoteText (s : String) : String :=
  String.ofList (doubleQuote :: s.toList.flatMap (escape doubleQuote) ++ [doubleQuote])

/-- A character between single quotes. -/
def quoteChar (c : Char) : String :=
  String.ofList (singleQuote :: escape singleQuote c ++ [singleQuote])

end TileRobot.Text
