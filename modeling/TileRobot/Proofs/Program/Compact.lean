import Mathlib.Data.Nat.Init
import TileRobot.Program.Basic

/-!
# Programs without empty slots

Compacting a program takes the empty slots out of its routines and leaves the filled ones in their
order. The instruction in slot `k` gets into the slot whose index is the number of filled slots
before `k` (`Routine.filled`), and different filled slots get to different ones
(`Routine.eq_of_filled_eq`).
-/

namespace TileRobot

namespace Routine

variable {r : Routine} {i : Instruction} {k l : Nat}

/-- The routine without its empty slots. -/
def compact (r : Routine) : Routine := ofInstructions r.instructions

/-- The number of filled slots before slot `k`. -/
def filled (r : Routine) (k : Nat) : Nat := (instructions (r.take k)).length

@[simp] theorem length_compact (r : Routine) : r.compact.length = r.instructions.length := by
  rw [compact, ofInstructions, List.length_map]

@[simp] theorem instructions_compact (r : Routine) : r.compact.instructions = r.instructions :=
  instructions_ofInstructions _

theorem instructions_append (r t : Routine) :
    instructions (r ++ t) = instructions r ++ instructions t :=
  List.filterMap_append

theorem length_instructions_le (r : Routine) : r.instructions.length ≤ r.length :=
  List.length_filterMap_le _ _

@[simp] theorem filled_zero (r : Routine) : r.filled 0 = 0 := rfl

theorem filled_le_length (r : Routine) (k : Nat) : r.filled k ≤ r.instructions.length := by
  rw [← List.take_append_drop k r, instructions_append, List.length_append,
    List.take_append_drop]
  exact Nat.le_add_right _ _

/-- From the end of a routine on all filled slots have been counted. -/
theorem filled_of_length_le (hk : r.length ≤ k) : r.filled k = r.instructions.length := by
  rw [filled, List.take_of_length_le hk]

theorem filled_succ (r : Routine) (k : Nat) :
    r.filled (k + 1) = r.filled k + (r.instruction? k).toList.length := by
  rw [filled, List.take_add_one, instructions_append, List.length_append, filled, instruction?]
  rcases r[k]? with - | - | i <;> rfl

theorem filled_le_filled (hkl : k ≤ l) : r.filled k ≤ r.filled l := by
  induction l, hkl using Nat.le_induction with
  | base => exact Nat.le_refl _
  | succ l _ ih => rw [filled_succ]; omega

theorem filled_succ_of_eq_none (hk : r.instruction? k = none) : r.filled (k + 1) = r.filled k := by
  rw [filled_succ, hk]
  rfl

theorem filled_succ_of_eq_some (hk : r.instruction? k = some i) :
    r.filled (k + 1) = r.filled k + 1 := by
  rw [filled_succ, hk]
  rfl

/-- A filled slot is not among the ones after the last. -/
theorem filled_lt_length (hk : r.instruction? k = some i) :
    r.filled k < r.instructions.length := by
  have hle := filled_le_length r (k + 1)
  rw [filled_succ_of_eq_some hk] at hle
  exact hle

/-- Different filled slots have different numbers of filled slots before them. -/
theorem eq_of_filled_eq {j : Instruction} (hk : r.instruction? k = some i)
    (hl : r.instruction? l = some j) (heq : r.filled k = r.filled l) : k = l := by
  rcases Nat.lt_trichotomy k l with hlt | rfl | hlt
  · have hle := filled_le_filled (r := r) hlt
    rw [filled_succ_of_eq_some hk] at hle
    omega
  · rfl
  · have hle := filled_le_filled (r := r) hlt
    rw [filled_succ_of_eq_some hl] at hle
    omega

/-- Where the instruction of a filled slot gets to. -/
theorem instruction?_compact_filled (hk : r.instruction? k = some i) :
    r.compact.instruction? (r.filled k) = some i := by
  obtain ⟨hlt, hget⟩ := List.getElem?_eq_some_iff.1 (Option.join_eq_some_iff.1 hk)
  have hsplit : r.instructions = instructions (r.take k) ++ i :: instructions (r.drop (k + 1)) :=
    calc r.instructions
      _ = instructions (r.take k ++ r.drop k) := by rw [List.take_append_drop]
      _ = _ := by rw [instructions_append, List.drop_eq_getElem_cons hlt, hget]; rfl
  rw [instruction?, compact, ofInstructions, List.getElem?_map, hsplit, filled,
    List.getElem?_append_right (Nat.le_refl _), Nat.sub_self]
  rfl

/-- A routine that is compacted to one with a first slot begins with empty slots and the slot. -/
theorem exists_of_compact_eq_cons {slot : Slot} {t : Routine} (hr : r.compact = slot :: t) :
    ∃ n r', r = List.replicate n none ++ slot :: r' ∧ compact r' = t := by
  induction r with
  | nil => contradiction
  | cons x r ih =>
    rcases x with - | i
    · obtain ⟨n, r', rfl, ht⟩ := ih hr
      exact ⟨n + 1, r', rfl, ht⟩
    · obtain ⟨rfl, rfl⟩ := List.cons.inj hr
      exact ⟨0, r, rfl, rfl⟩

end Routine

namespace Program

variable {p : Program}

/-- The program without its empty slots. -/
def compact (p : Program) : Program := ⟨p.routines.map Routine.compact⟩

@[simp] theorem size_compact (p : Program) : p.compact.size = p.size := by
  rw [size, compact, List.length_map, size]

theorem getElem?_routines_compact (p : Program) (f : Nat) :
    p.compact.routines[f]? = p.routines[f]?.map Routine.compact := by
  rw [compact, List.getElem?_map]

end Program

end TileRobot
