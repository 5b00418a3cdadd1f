import TileRobot.Space.Basic
import TileRobot.Text.Numeral
/-!
# Odometers

A cursor knows its place by a phrase, and spells the program there when it is asked for it. An
odometer keeps the program beside the digits that spell it, one wheel for each routine, and moves on
by changing both in place. It turns the last digit that can be turned, on the first wheel that has
one, and writes the letter of each digit that changes into the slot of the digit.

The numbers of an odometer have a place of fixed size: indices of 128 bits, digits of 64 bits, and
lengths of words of 32 bits while they are sought. A number that outgrows its place, a division by
zero, and a place that a list does not have leave an odometer without an answer.

The word of a rank is found by its length: the words of each length are counted off as long as the
rank allows it, and what is left of the rank is written with so many digits. A number of words that
is not below the limit counts as the greatest number below it.
-/

namespace TileRobot

/-- The number after `n`, if it is below the limit. -/
def successor? (limit n : Nat) : Option Nat := if n + 1 < limit then some (n + 1) else none

/-- The list with `a` at a place, if it has that place. -/
def put? {α : Type} (l : List α) (place : Nat) (a : α) : Option (List α) :=
  if place < l.length then some (l.set place a) else none

namespace Word

/-- The first number that has no place in 32 bits. -/
def lengthLimit : Nat := 0x1_0000_0000

/-- The number of words of `n` letters, or the greatest number below the limit if it is not. -/
def width (a n : Nat) : Nat := (belowLimit? (Nat.pow a n)).getD (indexLimit - 1)

/-- Counts off the words of each length, from `length` letters on, that come before the word at a
place. Gives the length of that word and its place among the words of this length. The length can be
raised as often as there is `room`. -/
def measureFrom? (a room length place : Nat) : Option (Nat × Nat) :=
  if place < width a length then some (length, place)
  else
    match room with
    | 0 => none
    | room + 1 => measureFrom? a room (length + 1) (place - width a length)

/-- The length of the word of a rank, and its place among the words of this length. -/
def measure? (a rank : Nat) : Option (Nat × Nat) := measureFrom? a (lengthLimit - 1) 0 rank

/-- Writes a number with `n` digits to the base `a`, and puts them before those in `acc`. -/
def digitsOnto? (a : Nat) : Nat → Nat → List Nat → Option (List Nat)
  | 0, _, acc => some acc
  | n + 1, r, acc => if a = 0 then none else digitsOnto? a n (r / a) (r % a :: acc)

/-- The word of a rank, sought by its length. -/
def spell? (a rank : Nat) : Option (List Nat) := do
  let (length, place) ← measure? a rank
  digitsOnto? a length place []

end Word

namespace Phrase

/-- The part of a rank that a word within a bound takes, and what is left of the rank. A word with
too many possibilities to be counted takes all of it. -/
def share? (a bound rank : Nat) : Option (Nat × Nat) :=
  match Word.count? a bound with
  | some count => if count = 0 then none else some (rank % count, rank / count)
  | none => some (rank, 0)

/-- The phrase of a rank, sought word by word, and what is left of the rank after the last word. -/
def spell? (a : Nat) : List Nat → Nat → Option (List (List Nat) × Nat)
  | [], rank => some ([], rank)
  | bound :: bounds, rank => do
    let (part, rest) ← share? a bound rank
    let w ← Word.spell? a part
    let (ws, left) ← spell? a bounds rest
    return (w :: ws, left)

end Phrase

namespace Space

/-- One routine of an odometer. -/
structure Wheel where
  /-- The digits of its word. -/
  digits : List Nat
  /-- The slots that they spell. -/
  slots : Routine

/-- Turns the last digit before a place that can be turned, and the digits after it back to zero. If
there is none, the word grows by a letter, or starts again if it is as long as it may be. In that
last case, and only then, there is something to carry, and `false` comes second. -/
def Wheel.turn? (letters : List Instruction) (bound : Nat) : Nat → Wheel → Option (Wheel × Bool)
  | 0, w =>
    if w.digits.length < bound ∧ 0 < letters.length then do
      let first ← letters[0]?
      return (⟨w.digits ++ [0], w.slots ++ [some first]⟩, true)
    else return (⟨[], []⟩, false)
  | place + 1, w => do
    let digit ← successor? Text.limit64 (← w.digits[place]?)
    if digit < letters.length then
      let letter ← letters[digit]?
      return (⟨w.digits.set place digit, ← put? w.slots place (some letter)⟩, true)
    else
      let first ← letters[0]?
      turn? letters bound place ⟨w.digits.set place 0, ← put? w.slots place (some first)⟩

/-- The digits of all routines and the program that they spell. -/
structure Odometer where
  /-- The digits of each routine. -/
  digits : List (List Nat)
  /-- The program. -/
  program : Program
  /-- The index at which the program stands. -/
  index : Nat
  /-- Whether the last program has been passed. -/
  done : Bool

/-- The odometer at an index. -/
def odometer? (s : Space) (index : Nat) : Option Odometer := do
  let (digits, left) ← Phrase.spell? s.radix s.bounds index
  let rows ← digits.mapM fun w ↦ w.mapM fun d ↦ s.letters[d]?
  return ⟨digits, ⟨rows.map Routine.ofInstructions⟩, index, decide (0 < left)⟩

namespace Odometer

/-- The program of an odometer, unless the last one has been passed. -/
def current? (o : Odometer) : Option Program := if o.done then none else some o.program

/-- Turns one wheel. The answer says also whether there is nothing to carry. -/
def turn? (s : Space) (o : Odometer) (f : Nat) : Option (Odometer × Bool) := do
  let bound ← s.bounds[f]?
  let digits ← o.digits[f]?
  let slots ← o.program.routines[f]?
  let (w, moved) ← Wheel.turn? s.letters bound digits.length ⟨digits, slots⟩
  return ({ o with
    digits := o.digits.set f w.digits
    program := ⟨o.program.routines.set f w.slots⟩ }, moved)

/-- Turns the given wheels one after the other until there is nothing to carry. If there always is,
the last program has been passed. -/
def carry? (s : Space) (o : Odometer) : List Nat → Option Odometer
  | [] => some { o with done := true }
  | f :: fs => do
    let (o, moved) ← o.turn? s f
    if moved then return o else carry? s o fs

/-- The odometer at the next place. Past the last program an odometer stays where it is. -/
def advance? (s : Space) (o : Odometer) : Option Odometer :=
  if o.done then some o
  else do
    let index ← successor? indexLimit o.index
    carry? s { o with index } (List.range o.digits.length)

/-- The odometer `n` places on. -/
def advanceBy? (s : Space) (o : Odometer) : Nat → Option Odometer
  | 0 => some o
  | n + 1 => (o.advance? s).bind fun o ↦ o.advanceBy? s n

end Odometer

end Space

end TileRobot
