/-!
# JSON values

The data that a JSON text stands for. Objects keep their fields in order, repetitions included.
Numbers are integers when they are written without a fraction and an exponent, and are kept as
written otherwise; minus zero, which no integer is, counts among the latter.

The text of a string may hold halves of surrogate pairs that have lost their other half. Such a
string is still a value, but it is not a text (`text?`).

## Implementation notes

Reading and writing JSON is no part of the solver, which leaves it to a library. What is defined in
`Json` is the behaviour that the solver expects of the library, and this behaviour is assumed:
nothing here is about the code of the library.
-/

namespace TileRobot.Json

/-- An element of a string: a character, or a lone half of a surrogate pair. -/
inductive Letter where
  /-- A character. -/
  | char (c : Char)
  /-- A surrogate without its other half. -/
  | lone (unit : Nat)
deriving DecidableEq, Repr

/-- A JSON value. -/
inductive Value where
  /-- The value `null`. -/
  | null
  /-- A truth value. -/
  | bool (b : Bool)
  /-- A number written as an integer. -/
  | integer (n : Int)
  /-- A number written in another way. -/
  | decimal (text : List Char)
  /-- A string. -/
  | string (letters : List Letter)
  /-- A list of values. -/
  | array (items : List Value)
  /-- A list of values with names. -/
  | object (fields : List (List Letter × Value))

/-- The character that a letter is, if it is one. -/
def Letter.char? : Letter → Option Char
  | char c => some c
  | lone _ => none

/-- The letters of a text. -/
def letters (s : String) : List Letter := s.toList.map Letter.char

/-- The text that letters make up, if all of them are characters. -/
def text? (l : List Letter) : Option String := (l.mapM Letter.char?).map String.ofList

theorem mapM_char?_map_char (l : List Char) : (l.map Letter.char).mapM Letter.char? = some l := by
  induction l with
  | nil => rfl
  | cons c l ih => simp [Letter.char?, ih]

theorem text?_letters (s : String) : text? (letters s) = some s := by
  rw [text?, letters, mapM_char?_map_char, Option.map_some, String.ofList_toList]

namespace Value

/-- The string with a given text. -/
def ofString (s : String) : Value := .string (letters s)

/-- The object with the given fields. -/
def ofFields (fields : List (String × Value)) : Value :=
  .object (fields.map fun (name, v) ↦ (letters name, v))

end Value

end TileRobot.Json
