import TileRobot.Json.Decode
import TileRobot.Json.Reader
import TileRobot.Json.Writer
import TileRobot.Level.Basic
/-!
# Level documents

Levels are kept as JSON. A level has the fields `id`, `title`, `board`, `robot`, `goals`,
`functionLengths` and `paintableColors`; the number, the title and the paints may be missing, and
the first two may be `null`. The robot of a level has the fields `row`, `col` and `direction`, and
a goal is a pair of numbers.

The module also has the documents of the parts: colors, headings, positions and robots.
-/

namespace TileRobot

open Json (Value)

/-- The color that a value names. -/
def Color.ofJson? (v : Value) : Option Color := v.asName? Color.ofKeyword?

/-- The value that names a color. -/
def Color.toJson (c : Color) : Value := Value.ofString c.keyword

/-- The heading that a value names. -/
def Heading.ofJson? (v : Value) : Option Heading := v.asName? Heading.ofKeyword?

/-- The value that names a heading. -/
def Heading.toJson (h : Heading) : Value := Value.ofString h.keyword

namespace Position

/-- The position in a record of a row and a column. -/
def ofJson? (v : Value) : Option Position := do
  match ← v.asRecord? ["row", "col"] with
  | [some row, some col] => return ⟨← row.asInt32?, ← col.asInt32?⟩
  | _ => none

/-- The record of a position. -/
def toJson (p : Position) : Value :=
  Value.ofFields [("row", .integer p.row), ("col", .integer p.col)]

/-- The position in a pair of a row and a column. -/
def ofPair? : Value → Option Position
  | .array [row, col] => do return ⟨← row.asInt32?, ← col.asInt32?⟩
  | _ => none

/-- The pair of a row and a column. -/
def toPair (p : Position) : Value := .array [.integer p.row, .integer p.col]

end Position

namespace Robot

/-- The robot in a record of a position and a direction. -/
def ofJson? (v : Value) : Option Robot := do
  match ← v.asRecord? ["position", "direction"] with
  | [some position, some heading] => return ⟨← Position.ofJson? position, ← Heading.ofJson? heading⟩
  | _ => none

/-- The record of a robot. -/
def toJson (r : Robot) : Value :=
  Value.ofFields [("position", r.position.toJson), ("direction", r.heading.toJson)]

/-- The robot in a record of a row, a column and a direction. -/
def ofStart? (v : Value) : Option Robot := do
  match ← v.asRecord? ["row", "col", "direction"] with
  | [some row, some col, some heading] =>
    return ⟨⟨← row.asInt32?, ← col.asInt32?⟩, ← Heading.ofJson? heading⟩
  | _ => none

/-- The record of a row, a column and a direction. -/
def toStart (r : Robot) : Value :=
  Value.ofFields [("row", .integer r.position.row), ("col", .integer r.position.col),
    ("direction", r.heading.toJson)]

end Robot

namespace Level

/-- The names of the fields of a level, in the order in which they are written. -/
def fieldNames : List String :=
  ["id", "title", "board", "robot", "goals", "functionLengths", "paintableColors"]

/-- The level in a record. -/
def ofJson? (v : Value) : Option Level := do
  match ← v.asRecord? fieldNames with
  | [id, title, some board, some robot, some goals, some bounds, paints] =>
    return {
      id? := ← (id.getD .null).asOptional? Value.asNat64?
      title? := ← (title.getD .null).asOptional? Value.asText?
      board := ← board.asList? Value.asText?
      robot := ← Robot.ofStart? robot
      goals := ← goals.asList? Position.ofPair?
      bounds := ← bounds.asList? Value.asNat64?
      paints := ← (paints.getD (.array [])).asList? Color.ofJson? }
  | _ => none

/-- The record of a level. -/
def toJson (l : Level) : Value :=
  Value.ofFields [
    ("id", (l.id?.map fun n : Nat ↦ Value.integer n).getD .null),
    ("title", (l.title?.map Value.ofString).getD .null),
    ("board", .array (l.board.map Value.ofString)),
    ("robot", l.robot.toStart),
    ("goals", .array (l.goals.map Position.toPair)),
    ("functionLengths", .array (l.bounds.map fun n : Nat ↦ Value.integer n)),
    ("paintableColors", .array (l.paints.map Color.toJson))]

/-- The level that a text documents. -/
def read? (text : String) : Option Level := do ofJson? (← Json.read? text)

/-- The text that documents a level. -/
def write (l : Level) : String := l.toJson.compact

end Level

end TileRobot
