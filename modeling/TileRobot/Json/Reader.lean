import TileRobot.Json.Token
/-!
# Reading JSON

The value that a JSON text stands for. The reader goes over the tokens once, from left to right, and
keeps the arrays and objects that are still open in a list, the innermost first. What it may meet
next is part of its state, so a trailing comma or a missing value is met in a state that does not
allow it.

## Implementation notes

As everywhere in `Json`, the behaviour is one that the solver expects of a library (see
`Json.Value`).
-/

namespace TileRobot.Json

/-- An array or object that is still open, with the elements read so far, the last one first. -/
inductive Opening where
  /-- An array, in which an element is to be put. -/
  | array (before : List Value)
  /-- An object, in which a field of this name is to be put. -/
  | object (before : List (List Letter × Value)) (name : List Letter)

/-- What the reader may meet next, and what is still open around it. -/
inductive Reader where
  /-- A value. -/
  | value (around : List Opening)
  /-- The first element of an array, or its end. -/
  | item (around : List Opening)
  /-- The name of the first field of an object, or its end. -/
  | field (around : List Opening)
  /-- The name of a further field. -/
  | name (before : List (List Letter × Value)) (around : List Opening)
  /-- The colon after the name of a field. -/
  | colon (before : List (List Letter × Value)) (name : List Letter) (around : List Opening)
  /-- A comma or an end, after a value. -/
  | done (v : Value) (around : List Opening)

namespace Reader

/-- Takes a token where a value may stand. -/
def takeValue? (around : List Opening) : Token → Option Reader
  | .scalar v => some (.done v around)
  | .openArray => some (.item around)
  | .openObject => some (.field around)
  | _ => none

/-- Takes a token where the name of a field may stand. -/
def takeName? (before : List (List Letter × Value)) (around : List Opening) : Token → Option Reader
  | .scalar (.string l) => some (.colon before l around)
  | _ => none

/-- Takes a token after a value. -/
def takeEnd? (v : Value) : List Opening → Token → Option Reader
  | .array before :: around, .comma => some (.value (.array (v :: before) :: around))
  | .array before :: around, .closeArray => some (.done (.array (v :: before).reverse) around)
  | .object before key :: around, .comma => some (.name ((key, v) :: before) around)
  | .object before key :: around, .closeObject =>
    some (.done (.object ((key, v) :: before).reverse) around)
  | _, _ => none

/-- Takes the next token. -/
def take? : Reader → Token → Option Reader
  | value around, t => takeValue? around t
  | item around, .closeArray => some (.done (.array []) around)
  | item around, t => takeValue? (.array [] :: around) t
  | field around, .closeObject => some (.done (.object []) around)
  | field around, t => takeName? [] around t
  | name before around, t => takeName? before around t
  | colon before key around, .colon => some (.value (.object before key :: around))
  | colon _ _ _, _ => none
  | done v around, t => takeEnd? v around t

/-- Takes a row of tokens. -/
def run? (r : Reader) (tokens : List Token) : Option Reader := tokens.foldlM take? r

/-- The value that has been read, when nothing is open any more. -/
def result? : Reader → Option Value
  | done v [] => some v
  | _ => none

end Reader

/-- The value that a text stands for, if it is JSON. -/
def read? (text : String) : Option Value := do
  let tokens ← readTokens? text.toList
  let r ← (Reader.value []).run? tokens
  r.result?

end TileRobot.Json
