import TileRobot.Json.Value
import TileRobot.Text.Numeral
/-!
# Typed readings of JSON values

Readings of values as texts, numbers, lists and records. A record is written as an object with its
fields in any order, among others that are passed over, or as an array of its fields in their order,
from which the last ones may be missing. Whether a record may do without a field is for the reader
of the record to say.

## Implementation notes

As everywhere in `Json`, the behaviour is one that the solver expects of a library (see
`Json.Value`).
-/

namespace TileRobot.Json.Value

/-- The text of a string. -/
def asText? : Value → Option String
  | string l => text? l
  | _ => none

/-- An integer of at least `low` and below `high`. -/
def asInteger? (low high : Int) : Value → Option Int
  | integer n => if low ≤ n ∧ n < high then some n else none
  | _ => none

/-- An integer of 32 bits with a sign. -/
def asInt32? : Value → Option Int := asInteger? (-0x8000_0000) 0x8000_0000

/-- A natural number of 64 bits. -/
def asNat64? (v : Value) : Option Nat := (asInteger? 0 Text.limit64 v).map Int.toNat

/-- A list, with a reading of its elements. -/
def asList? {α : Type} (read? : Value → Option α) : Value → Option (List α)
  | array items => items.mapM read?
  | _ => none

/-- A value that may be absent, and then is `null`. -/
def asOptional? {α : Type} (read? : Value → Option α) : Value → Option (Option α)
  | null => some none
  | v => (read? v).map some

/-- One of several names. It may also be written as an object whose only field has that name and the
value `null`. -/
def asName? {α : Type} (ofName? : String → Option α) : Value → Option α
  | string l => (text? l).bind ofName?
  | object [(name, null)] => (text? name).bind ofName?
  | _ => none

/-- The values in a row of named fields that have one of the given names: for each name its value,
if it has one. There is no answer if one of these names occurs twice or a name is no text. -/
def gather? (names : List String) (fields : List (List Letter × Value)) :
    Option (List (Option Value)) := do
  let fields ← fields.mapM fun (name, v) ↦ (text? name).map fun n ↦ (n, v)
  names.mapM fun name ↦
    match fields.filter (·.1 == name) with
    | [] => some none
    | [(_, v)] => some (some v)
    | _ => none

/-- The fields of a record with the given names: for each name its value, if it has one. -/
def asRecord? (names : List String) : Value → Option (List (Option Value))
  | object fields => gather? names fields
  | array items =>
    if items.length ≤ names.length then
      some (items.map some ++ List.replicate (names.length - items.length) none)
    else none
  | _ => none

end TileRobot.Json.Value
