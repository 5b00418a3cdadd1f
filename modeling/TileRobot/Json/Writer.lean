import TileRobot.Json.Value
import TileRobot.Text.Numeral
/-!
# Writing JSON

Two written forms of a value: the compact one, without blanks, and the spread one, in which every
element stands on a line of its own, two columns to the right of the bracket around it.

In strings the quote, the backslash and the control characters are escaped, those with a short
escape by it and the others by their number; everything else stands as it is.

## Implementation notes

As everywhere in `Json`, the behaviour is one that the solver expects of a library (see
`Json.Value`).
-/

namespace TileRobot.Json

/-- The digit to the base 16, in lower case. -/
def hexDigit (n : Nat) : Char := Nat.digitChar (n % 16)

/-- The escape by a number of at most four digits to the base 16. -/
def unitEscape (n : Nat) : List Char :=
  ['\\', 'u', hexDigit (n / 0x1000), hexDigit (n / 0x100), hexDigit (n / 0x10), hexDigit n]

/-- How a letter stands in a string. -/
def Letter.render : Letter → List Char
  | .lone n => unitEscape n
  | .char c =>
    if c = '\x22' then ['\\', '\x22']
    else if c = '\\' then ['\\', '\\']
    else if c = '\x08' then ['\\', 'b']
    else if c = '\x0c' then ['\\', 'f']
    else if c = '\n' then ['\\', 'n']
    else if c = '\r' then ['\\', 'r']
    else if c = '\t' then ['\\', 't']
    else if c.toNat < 0x20 then unitEscape c.toNat
    else [c]

/-- A string between its quotes. -/
def renderString (l : List Letter) : List Char := '\x22' :: l.flatMap Letter.render ++ ['\x22']

/-- The digits of an integer, with a minus sign if it is negative. -/
def renderInteger (n : Int) : List Char :=
  if n < 0 then '-' :: Text.digits n.natAbs else Text.digits n.natAbs

namespace Value

/-- The written form of a value without parts; empty for the others. -/
def renderScalar : Value → List Char
  | null => ['n', 'u', 'l', 'l']
  | bool true => ['t', 'r', 'u', 'e']
  | bool false => ['f', 'a', 'l', 's', 'e']
  | integer n => renderInteger n
  | decimal text => text
  | string l => renderString l
  | array _ => []
  | object _ => []

mutual

/-- The compact form of a value. -/
def compactChars : Value → List Char
  | array items => '[' :: compactItems items ++ [']']
  | object fields => '\x7b' :: compactFields fields ++ ['\x7d']
  | v => v.renderScalar

/-- The compact forms of the elements of an array, with commas between them. -/
def compactItems : List Value → List Char
  | [] => []
  | [v] => v.compactChars
  | v :: vs => v.compactChars ++ ',' :: compactItems vs

/-- The compact forms of the fields of an object, with commas between them. -/
def compactFields : List (List Letter × Value) → List Char
  | [] => []
  | [(name, v)] => renderString name ++ ':' :: v.compactChars
  | (name, v) :: fields => renderString name ++ ':' :: v.compactChars ++ ',' :: compactFields fields

end

/-- The compact form of a value. -/
def compact (v : Value) : String := String.ofList v.compactChars

/-- A line end and the blanks before an element that is `depth` brackets deep. -/
def indentation (depth : Nat) : List Char := '\n' :: List.replicate (2 * depth) ' '

mutual

/-- The spread form of a value that stands `depth` brackets deep. -/
def spreadChars (depth : Nat) : Value → List Char
  | array [] => ['[', ']']
  | array items => '[' :: spreadItems (depth + 1) items ++ indentation depth ++ [']']
  | object [] => ['\x7b', '\x7d']
  | object fields => '\x7b' :: spreadFields (depth + 1) fields ++ indentation depth ++ ['\x7d']
  | v => v.renderScalar

/-- The spread forms of the elements of an array, each on its line. -/
def spreadItems (depth : Nat) : List Value → List Char
  | [] => []
  | [v] => indentation depth ++ v.spreadChars depth
  | v :: vs => indentation depth ++ v.spreadChars depth ++ ',' :: spreadItems depth vs

/-- The spread forms of the fields of an object, each on its line. -/
def spreadFields (depth : Nat) : List (List Letter × Value) → List Char
  | [] => []
  | [(name, v)] => indentation depth ++ renderString name ++ ':' :: ' ' :: v.spreadChars depth
  | (name, v) :: fields =>
    indentation depth ++ renderString name ++ ':' :: ' ' :: v.spreadChars depth
      ++ ',' :: spreadFields depth fields

end

/-- The lines of the spread form of a value. -/
def spreadLines (v : Value) : List String := ((v.spreadChars 0).splitOn '\n').map String.ofList

end Value

end TileRobot.Json
