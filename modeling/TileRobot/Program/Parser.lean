import TileRobot.Program.Basic
import TileRobot.Text.Blank
import TileRobot.Text.Numeral
import TileRobot.Text.Quoted
import TileRobot.Text.Split
/-!
# Reading programs

The reader of the written form of programs. It takes any blanks around a program's pieces, so it
reads more than what is printed; nothing may stand between the parts of one instruction.

The text is cut at the separator of routines, each piece is stripped of its brackets and cut at the
commas. The first piece that is no routine, and in it the first slot that is none, gives the fault.
-/

namespace TileRobot

/-- Why a text is no program. -/
inductive SyntaxFault where
  /-- A piece that should be a routine does not stand in square brackets. -/
  | unbracketed (text : String)
  /-- A text stands where a color is asked for. -/
  | unknownColor (text : String)
  /-- A text stands where an instruction is asked for. -/
  | unknownInstruction (text : String)
deriving DecidableEq, Repr

/-- What a report says about a text that is no program. -/
def SyntaxFault.message : SyntaxFault → String
  | unbracketed text => s!"function {Text.quoteText text} is not wrapped in '[' and ']'"
  | unknownColor text => s!"unknown color {Text.quoteText text}"
  | unknownInstruction text => s!"unknown instruction {Text.quoteText text}"

/-- Reads a color, which is a single letter. -/
def Color.read (s : List Char) : Except SyntaxFault Color :=
  match s with
  | [x] =>
    match Color.ofLetter? x with
    | some c => .ok c
    | none => .error (.unknownColor (String.ofList s))
  | _ => .error (.unknownColor (String.ofList s))

/-- Reads an operation. The text `whole` is that of the instruction it belongs to, which is what a
fault names unless it is the color that is unknown. The number of a routine is at least one and has
a place in 64 bits. -/
def Operation.read (whole s : List Char) : Except SyntaxFault Operation :=
  if s = "forward".toList then .ok .forward
  else if s = "left".toList then .ok .left
  else if s = "right".toList then .ok .right
  else
    match s with
    | 'T' :: 'O' :: ':' :: color => (Color.read color).map .paint
    | 'F' :: number =>
      match Text.readNat? Text.limit64 number with
      | some (t + 1) => .ok (.call t)
      | _ => .error (.unknownInstruction (String.ofList whole))
    | _ => .error (.unknownInstruction (String.ofList whole))

/-- Divides the text of an instruction into the text of its guard, if it has one, and that of its
operation. -/
def Instruction.splitGuard (s : List Char) : Option (List Char) × List Char :=
  match s with
  | '(' :: inside =>
    match Text.cut? [')', '|'] inside with
    | some (color, operation) => (some color, operation)
    | none => (none, s)
  | _ => (none, s)

/-- Reads an instruction. A faulty guard goes before a faulty operation. -/
def Instruction.read (s : List Char) : Except SyntaxFault Instruction := do
  let s := Text.trim s
  let (color?, operation) := Instruction.splitGuard s
  let guard ← color?.mapM Color.read
  let operation ← Operation.read s operation
  return { operation, guard }

/-- Reads a slot. -/
def Slot.read (s : List Char) : Except SyntaxFault Slot :=
  let s := Text.trim s
  if s = ['_'] then .ok none else (Instruction.read s).map some

/-- The text between the square brackets around `s`, if it stands in them. -/
def Routine.unbracket? (s : List Char) : Option (List Char) :=
  match s with
  | '[' :: rest => if rest.getLast? = some ']' then some rest.dropLast else none
  | _ => none

/-- Reads a routine. -/
def Routine.read (s : List Char) : Except SyntaxFault Routine :=
  let s := Text.trim s
  match Routine.unbracket? s with
  | none => .error (.unbracketed (String.ofList s))
  | some inside =>
    let inside := Text.trim inside
    if inside.isEmpty then .ok [] else (inside.splitOn ',').mapM Slot.read

/-- Reads a program. -/
def Program.read (text : String) : Except SyntaxFault Program := do
  let routines ← (Text.pieces [' ', '+', ' '] text.toList).mapM Routine.read
  return ⟨routines⟩

end TileRobot
