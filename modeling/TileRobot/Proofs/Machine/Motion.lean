import Mathlib.Logic.Equiv.Basic
import TileRobot.Proofs.Board.Redrawn
import TileRobot.Proofs.Machine.Symmetry

/-!
# Motions of the grid

A motion is a symmetry that leaves colors and routines alone. What a scene looks like after a motion
is the redrawn scene, and a run on it ends as before (`Motion.map_ending_run`), provided that the
program has left and right exchanged if the motion mirrors the grid.

There are three motions here: a quarter turn, the exchange of west and east, and a shift by one row
and one column. The shift makes room for a ring of tiles without color around the board. Since a run
is not changed by it, the edge of a board is like a wall (`map_ending_run_ringed`).
-/

namespace TileRobot

/-- The symmetry that leaves colors and routines alone. -/
def Motion.symmetry (m : Motion) : Symmetry where
  toMotion := m
  color := Equiv.refl Color
  routine := Equiv.refl Nat
  routine_zero := rfl

/-! ### Left and right -/

/-- The operation with left and right exchanged. -/
def Operation.mirrored : Operation → Operation
  | .left => .right
  | .right => .left
  | o => o

/-- The instruction with left and right exchanged. -/
def Instruction.mirrored (i : Instruction) : Instruction := ⟨i.operation.mirrored, i.guard⟩

/-- The routine with left and right exchanged in all instructions. -/
def Routine.mirrored (r : Routine) : Routine := r.map (Option.map Instruction.mirrored)

/-- The program with left and right exchanged in all instructions. -/
def Program.mirrored (p : Program) : Program := ⟨p.routines.map Routine.mirrored⟩

namespace Motion

variable (m : Motion) {width height : Nat}

/-- A motion changes instructions only if it mirrors the grid. -/
theorem onInstruction_eq (i : Instruction) :
    m.symmetry.onInstruction i = if m.mirrors then i.mirrored else i := by
  obtain ⟨o, guard⟩ := i
  have hguard : guard.map m.symmetry.color = guard := Option.map_id_apply
  have hmirrors : m.symmetry.mirrors = m.mirrors := rfl
  rw [Symmetry.onInstruction, hguard]
  cases o <;> simp only [Symmetry.onOperation, hmirrors] <;> split <;> rfl

theorem onRoutine_eq (r : Routine) :
    m.symmetry.onRoutine r = if m.mirrors then Routine.mirrored r else r := by
  rw [Symmetry.onRoutine, funext m.onInstruction_eq]
  split
  · rfl
  · simp

theorem onProgram (p : Program) :
    m.symmetry.OnProgram p (if m.mirrors then p.mirrored else p) where
  size := by
    split
    · exact List.length_map _
    · rfl
  routine k := by
    have hroutine : m.symmetry.routine k = k := rfl
    rw [hroutine, funext m.onRoutine_eq]
    split
    · exact List.getElem?_map
    · exact Option.map_id_apply.symm
  undeclared _ _ := rfl

/-- A motion leads from a scene to the redrawn one, if all tiles have a place on its board. -/
theorem onScene_redrawn {s : Scene} (hfits : ∀ q, s.board.Contains q →
    (s.board.redrawn width height m.position).Contains (m.position q)) :
    m.symmetry.OnScene s (s.redrawn width height m.position m.heading) where
  colorAt q := (Board.colorAt_redrawn hfits q).trans Option.map_id_apply.symm
  robot := rfl
  goals _ := Goals.apply_mem_map

/-- **A run is not changed by a motion of the grid.** -/
theorem map_ending_run {s : Scene} (hfits : ∀ q, s.board.Contains q →
      (s.board.redrawn width height m.position).Contains (m.position q)) (fuel : Nat)
    (p : Program) :
    (Machine.run fuel (s.redrawn width height m.position m.heading)
        (if m.mirrors then p.mirrored else p)).map Machine.Halt.ending =
      (Machine.run fuel s p).map Machine.Halt.ending :=
  Symmetry.map_ending_run (m.onProgram p) (m.onScene_redrawn hfits) fuel

end Motion

/-! ### Three motions -/

theorem Heading.offset_left (h : Heading) : h.left.offset = (-h.offset.2, h.offset.1) := by
  cases h <;> rfl

/-- The heading with west and east exchanged. -/
def Heading.mirrored : Heading → Heading
  | .west => .east
  | .east => .west
  | h => h

theorem Heading.mirrored_involutive : Function.Involutive Heading.mirrored := by
  intro h
  cases h <;> rfl

theorem Heading.offset_mirrored (h : Heading) :
    h.mirrored.offset = (h.offset.1, -h.offset.2) := by
  cases h <;> rfl

namespace Motion

/-- A quarter turn to the left of a grid of `width` columns, which moves the last column to the
first row. -/
def quarterTurn (width : Int) : Motion where
  position :=
    { toFun := fun q ↦ ⟨width - 1 - q.col, q.row⟩
      invFun := fun q ↦ ⟨q.col, width - 1 - q.row⟩
      left_inv := fun _ ↦ Position.ext rfl (Int.sub_sub_self _ _)
      right_inv := fun _ ↦ Position.ext (Int.sub_sub_self _ _) rfl }
  heading := ⟨Heading.left, Heading.right, Heading.left_right, Heading.right_left⟩
  mirrors := false
  ahead q h := by
    apply Position.ext
    · show width - 1 - (q.col + h.offset.2) = width - 1 - q.col + h.left.offset.1
      rw [Heading.offset_left]
      omega
    · show q.row + h.offset.1 = q.row + h.left.offset.2
      rw [Heading.offset_left]
  left _ := rfl

/-- The reflection of a grid of `width` columns, which exchanges the first column and the last. -/
def reflection (width : Int) : Motion where
  position :=
    { toFun := fun q ↦ ⟨q.row, width - 1 - q.col⟩
      invFun := fun q ↦ ⟨q.row, width - 1 - q.col⟩
      left_inv := fun _ ↦ Position.ext rfl (Int.sub_sub_self _ _)
      right_inv := fun _ ↦ Position.ext rfl (Int.sub_sub_self _ _) }
  heading := Heading.mirrored_involutive.toPerm
  mirrors := true
  ahead q h := by
    apply Position.ext
    · show q.row + h.offset.1 = q.row + h.mirrored.offset.1
      rw [Heading.offset_mirrored]
    · show width - 1 - (q.col + h.offset.2) = width - 1 - q.col + h.mirrored.offset.2
      rw [Heading.offset_mirrored]
      omega
  left h := by cases h <;> rfl

/-- The shift by one row and one column. -/
def shift : Motion where
  position :=
    { toFun := fun q ↦ ⟨q.row + 1, q.col + 1⟩
      invFun := fun q ↦ ⟨q.row - 1, q.col - 1⟩
      left_inv := fun _ ↦ Position.ext (Int.add_sub_cancel _ _) (Int.add_sub_cancel _ _)
      right_inv := fun _ ↦ Position.ext (Int.sub_add_cancel _ _) (Int.sub_add_cancel _ _) }
  heading := Equiv.refl Heading
  mirrors := false
  ahead _ _ := Position.ext (Int.add_right_comm _ _ _) (Int.add_right_comm _ _ _)
  left _ := rfl

end Motion

namespace Scene

/-- The scene after a quarter turn to the left of board, robot and goals. -/
def turned (s : Scene) : Scene :=
  s.redrawn s.board.height s.board.width (Motion.quarterTurn s.board.width).position Heading.left

/-- The mirror image of the scene, with west and east exchanged. -/
def mirrored (s : Scene) : Scene :=
  s.redrawn s.board.width s.board.height (Motion.reflection s.board.width).position
    Heading.mirrored

/-- The scene with a ring of tiles without color around the board, robot and goals being shifted
along. -/
def ringed (s : Scene) : Scene :=
  s.redrawn (s.board.width + 2) (s.board.height + 2) Motion.shift.position id

end Scene

namespace Machine

/-- A quarter turn of the scene does not change how a run ends. -/
theorem map_ending_run_turned (fuel : Nat) (s : Scene) (p : Program) :
    (run fuel s.turned p).map Halt.ending = (run fuel s p).map Halt.ending := by
  refine (Motion.quarterTurn s.board.width).map_ending_run (fun q hq ↦ ?_) fuel p
  obtain ⟨⟨hrow, hrow'⟩, hcol, hcol'⟩ := hq
  show ((0 : Int) ≤ s.board.width - 1 - q.col ∧ s.board.width - 1 - q.col < s.board.width) ∧
    0 ≤ q.row ∧ q.row < s.board.height
  omega

/-- The mirror image of a program ends on the mirror image of a scene as the program on the
scene. -/
theorem map_ending_run_mirrored (fuel : Nat) (s : Scene) (p : Program) :
    (run fuel s.mirrored p.mirrored).map Halt.ending = (run fuel s p).map Halt.ending := by
  refine (Motion.reflection s.board.width).map_ending_run (fun q hq ↦ ?_) fuel p
  obtain ⟨⟨hrow, hrow'⟩, hcol, hcol'⟩ := hq
  show (0 ≤ q.row ∧ q.row < s.board.height) ∧
    (0 : Int) ≤ s.board.width - 1 - q.col ∧ s.board.width - 1 - q.col < s.board.width
  omega

/-- **The edge of a board is like a wall.** With a ring of tiles without color around the board, the
robot and the goals being shifted along, each program ends as before, after as many steps. The robot
may stand anywhere, on the board or off it. -/
theorem map_ending_run_ringed (fuel : Nat) (s : Scene) (p : Program) :
    (run fuel s.ringed p).map Halt.ending = (run fuel s p).map Halt.ending := by
  refine Motion.shift.map_ending_run (fun q hq ↦ ?_) fuel p
  obtain ⟨⟨hrow, hrow'⟩, hcol, hcol'⟩ := hq
  show (0 ≤ q.row + 1 ∧ q.row + 1 < (s.board.height + 2 : Nat)) ∧
    0 ≤ q.col + 1 ∧ q.col + 1 < (s.board.width + 2 : Nat)
  omega

end Machine

end TileRobot
