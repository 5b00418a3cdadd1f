import TileRobot.Program.Basic
import TileRobot.Text.Numeral
import TileRobot.Text.Quoted
/-!
# Programs as text

The written form of programs, for example `[ forward, F1 ] + [ (R)|left, TO:G, _ ]`. A call is
written with the number of its routine, counted from one; a guard stands in round brackets before a
bar; an empty slot is a low line; a routine without slots is a pair of brackets.

## Implementation notes

The number of a routine has a place of 64 bits, so counting from one takes the last index that has
such a place to zero. No program is so long that it has a routine there, but a program may call it.
-/

namespace TileRobot

/-- The letter of a color as a text. -/
def Color.render (c : Color) : String := String.singleton c.letter

/-- The number by which texts name the routine with index `t`: counted from one, in 64 bits. -/
def routineNumber (t : Nat) : Nat := (t + 1) % Text.limit64

theorem routineNumber_of_lt {t : Nat} (ht : t + 1 < Text.limit64) : routineNumber t = t + 1 :=
  Nat.mod_eq_of_lt ht

example : routineNumber 0xFFFF_FFFF_FFFF_FFFF = 0 := by decide

/-- The written form of an operation. -/
def Operation.render : Operation → String
  | forward => "forward"
  | left => "left"
  | right => "right"
  | paint c => "TO:" ++ c.render
  | call t => "F" ++ toString (routineNumber t)

/-- The written form of an instruction. -/
def Instruction.render (i : Instruction) : String :=
  match i.guard with
  | some c => "(" ++ c.render ++ ")|" ++ i.operation.render
  | none => i.operation.render

/-- The written form of a slot. -/
def Slot.render : Slot → String
  | some i => i.render
  | none => "_"

/-- The written form of a routine. -/
def Routine.render (r : Routine) : String :=
  if r.isEmpty then "[ ]" else "[ " ++ ", ".intercalate (r.map Slot.render) ++ " ]"

/-- The written form of a program. -/
def Program.render (p : Program) : String :=
  " + ".intercalate (p.routines.map Routine.render)

/-- What a report says about a faulty program. -/
def ProgramFault.message : ProgramFault → String
  | undeclared t declared =>
    s!"call to F{routineNumber t} but the program declares {declared} function(s)"
  | routineCount expected found =>
    s!"program has {found} function(s), puzzle declares {expected}"
  | tooLong r length bound => s!"F{routineNumber r} has {length} slots, bound is {bound}"

end TileRobot
