import TileRobot.Color
/-!
# Programs

A program is a list of routines, the first of which is run. A routine is a row of slots, each empty
or filled with an instruction: an operation and, if it is guarded, the color that the tile under the
robot must have for the operation to be carried out.

## Main statements

* `Program.fault?_eq_none_iff`: the search for a fault finds none exactly in the programs that fit
  the given bounds (`Program.Fits`).
-/

namespace TileRobot

/-- What an instruction makes the robot do. -/
inductive Operation where
  /-- Go to the tile ahead. -/
  | forward
  /-- Turn a quarter to the left. -/
  | left
  /-- Turn a quarter to the right. -/
  | right
  /-- Paint the tile under the robot. -/
  | paint (color : Color)
  /-- Run the routine with index `target`, then go on. -/
  | call (target : Nat)
deriving DecidableEq, Repr

/-- An operation, carried out only on tiles of one color if it is guarded. -/
@[ext] structure Instruction where
  /-- What to do. -/
  operation : Operation
  /-- The color that the tile must have, if the instruction is guarded. -/
  guard : Option Color
deriving DecidableEq, Repr

namespace Instruction

/-- An instruction applies on a tile when it is unguarded or the tile has the color of its guard. -/
def AppliesOn (i : Instruction) (tile : Option Color) : Prop :=
  i.guard = none ∨ i.guard = tile

instance (i : Instruction) (tile : Option Color) : Decidable (i.AppliesOn tile) :=
  inferInstanceAs (Decidable (i.guard = none ∨ i.guard = tile))

/-- The routine that an instruction calls, if it is a call. -/
def target? (i : Instruction) : Option Nat :=
  match i.operation with
  | .call t => some t
  | _ => none

theorem target?_eq_some_iff {i : Instruction} {t : Nat} :
    i.target? = some t ↔ i.operation = .call t := by
  cases i with
  | mk o g => cases o <;> simp [target?]

/-- The color that an instruction paints with, if it paints. -/
def paint? (i : Instruction) : Option Color :=
  match i.operation with
  | .paint c => some c
  | _ => none

theorem paint?_eq_some_iff {i : Instruction} {c : Color} :
    i.paint? = some c ↔ i.operation = .paint c := by
  cases i with
  | mk o g => cases o <;> simp [paint?]

end Instruction

/-- A place in a routine: an instruction, or nothing. -/
abbrev Slot := Option Instruction

/-- A row of slots, run from left to right. -/
abbrev Routine := List Slot

namespace Routine

/-- The instruction in the slot with index `i`; none if the slot is empty or there is no such
slot. -/
def instruction? (r : Routine) (i : Nat) : Option Instruction := r[i]?.join

/-- The instructions in the filled slots. -/
def instructions (r : Routine) : List Instruction := r.filterMap id

/-- The routine whose slots are filled with the given instructions. -/
def ofInstructions (l : List Instruction) : Routine := l.map some

theorem mem_instructions {r : Routine} {i : Instruction} : i ∈ r.instructions ↔ some i ∈ r := by
  simp [instructions]

@[simp] theorem instructions_ofInstructions (l : List Instruction) :
    (ofInstructions l).instructions = l := by
  simp [instructions, ofInstructions]

end Routine

/-- A list of routines, of which the first is run. -/
@[ext] structure Program where
  /-- The routines, in the order of their indices. -/
  routines : List Routine
deriving DecidableEq, Repr

/-- Why a program cannot be run, or does not have the shape asked for. -/
inductive ProgramFault where
  /-- A call to the routine with index `target`, of which there are only `declared`. -/
  | undeclared (target declared : Nat)
  /-- There are `found` routines where `expected` are asked for. -/
  | routineCount (expected found : Nat)
  /-- The routine with index `routine` has `length` slots where `bound` are allowed. -/
  | tooLong (routine length bound : Nat)
deriving DecidableEq, Repr

namespace Program

/-- The number of routines. -/
def size (p : Program) : Nat := p.routines.length

/-- The program with `n` routines, none of which has a slot. -/
def blank (n : Nat) : Program := ⟨List.replicate n []⟩

/-- The number of instructions in all routines. -/
def instructionCount (p : Program) : Nat :=
  (p.routines.flatMap Routine.instructions).length

/-! ### Fitting bounds -/

/-- A program fits bounds when it has one routine for each of them, no routine has more slots than
its bound, and every call names one of the routines. -/
def Fits (p : Program) (bounds : List Nat) : Prop :=
  p.size = bounds.length ∧
    ∀ entry ∈ p.routines.zip bounds, entry.1.length ≤ entry.2 ∧
      ∀ i ∈ Routine.instructions entry.1, ∀ t ∈ i.target?, t < p.size

instance (p : Program) (bounds : List Nat) : Decidable (p.Fits bounds) :=
  inferInstanceAs (Decidable (_ ∧ _))

/-- Where there are as many bounds as routines, each routine has one. -/
theorem exists_mem_zip_of_mem {p : Program} {bounds : List Nat} {r : Routine}
    (hsize : p.size = bounds.length) (hr : r ∈ p.routines) :
    ∃ bound, (r, bound) ∈ p.routines.zip bounds := by
  obtain ⟨k, hk, rfl⟩ := List.getElem_of_mem hr
  have hk' : k < bounds.length := hsize ▸ hk
  exact ⟨bounds[k], List.mem_of_getElem? (List.getElem?_zip_eq_some.2
    ⟨List.getElem?_eq_getElem hk, List.getElem?_eq_getElem hk'⟩)⟩

/-- The first fault of one routine, which has the given index and bound, in a program with
`declared` routines: its length goes before its calls. -/
def routineFault? (declared : Nat) (r : Routine) (index bound : Nat) : Option ProgramFault :=
  if bound < r.length then some (.tooLong index r.length bound)
  else r.instructions.findSome? fun i ↦
    (i.target?.filter (declared ≤ ·)).map fun t ↦ .undeclared t declared

theorem routineFault?_eq_none_iff {declared index bound : Nat} {r : Routine} :
    routineFault? declared r index bound = none ↔
      r.length ≤ bound ∧ ∀ i ∈ r.instructions, ∀ t ∈ i.target?, t < declared := by
  simp only [routineFault?]
  split
  · simp
    omega
  · simp only [List.findSome?_eq_none_iff, Option.map_eq_none_iff, Option.filter_eq_none_iff,
      decide_eq_true_eq, Nat.not_le]
    constructor
    · exact fun h ↦ ⟨by omega, h⟩
    · exact And.right

/-- The first fault of a program with respect to bounds, if it has one: the number of routines goes
first, then the routines in their order. -/
def fault? (p : Program) (bounds : List Nat) : Option ProgramFault :=
  if p.size ≠ bounds.length then some (.routineCount bounds.length p.size)
  else (p.routines.zip bounds).zipIdx.findSome? fun ((r, bound), index) ↦
    routineFault? p.size r index bound

/-- A program has no fault exactly if it fits. -/
theorem fault?_eq_none_iff {p : Program} {bounds : List Nat} :
    p.fault? bounds = none ↔ p.Fits bounds := by
  simp only [fault?, Fits]
  split
  · rename_i h
    simp [h]
  · rename_i h
    simp only [List.findSome?_eq_none_iff, routineFault?_eq_none_iff, Prod.forall]
    constructor
    · intro hall
      refine ⟨by omega, fun r bound hmem ↦ ?_⟩
      obtain ⟨n, hn, he⟩ := List.getElem_of_mem hmem
      exact hall r bound n (List.mem_zipIdx_iff_getElem?.2 (by
        rw [List.getElem?_eq_getElem hn, he]))
    · intro hall r bound n hmem
      exact hall.2 r bound (List.mem_of_getElem? (List.mem_zipIdx_iff_getElem?.1 hmem))

end Program

end TileRobot
