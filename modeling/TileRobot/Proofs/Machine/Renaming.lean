import Mathlib.Data.Fin.Basic
import Mathlib.Logic.Equiv.Basic
import TileRobot.Proofs.Machine.Symmetry

/-!
# Other names for colors and routines

Two symmetries that leave the grid as it is. One gives other names to the colors, on the tiles, in
the guards and in the paints; the other puts the routines into another order, with the first one in
its place, and lets every call name its routine by the new index. A call of a routine that does not
exist has no new index and is kept.

In both cases the program in the new names ends as before (`ending_recolored_reordered`), with the
same fault if it ends with one: a fault names an index without a routine, and such an index is not
changed.
-/

namespace TileRobot

open Machine

/-- No motion at all. -/
def Motion.rest : Motion where
  position := Equiv.refl Position
  heading := Equiv.refl Heading
  mirrors := false
  ahead _ _ := rfl
  left h := Equiv.refl_apply h.left

/-! ### Colors -/

section Colors

variable (π : Equiv.Perm Color)

/-- The board with other colors. -/
def Board.recolored (b : Board) (π : Equiv.Perm Color) : Board where
  width := b.width
  height := b.height
  tiles := b.tiles.map (Option.map π)
  size_tiles := by rw [Array.size_map, b.size_tiles]

/-- The scene with other colors. -/
def Scene.recolored (s : Scene) (π : Equiv.Perm Color) : Scene :=
  { s with board := s.board.recolored π }

/-- The operation with another color, if it paints. -/
def Operation.recolored (π : Equiv.Perm Color) : Operation → Operation
  | .paint c => .paint (π c)
  | o => o

/-- The instruction with other colors, in its operation and in its guard. -/
def Instruction.recolored (π : Equiv.Perm Color) (i : Instruction) : Instruction :=
  ⟨i.operation.recolored π, i.guard.map π⟩

/-- The program with other colors in all instructions. -/
def Program.recolored (p : Program) (π : Equiv.Perm Color) : Program :=
  ⟨p.routines.map fun r ↦ r.map (Option.map (Instruction.recolored π))⟩

theorem Board.colorAt_recolored (b : Board) (q : Position) :
    (b.recolored π).colorAt q = (b.colorAt q).map π := by
  by_cases hq : b.Contains q
  · have hq' : (b.recolored π).Contains q := hq
    have hget : (b.recolored π).tiles[b.place q]? = some ((b.colorAt q).map π) := by
      rw [recolored, Array.getElem?_map, colorAt_eq_getElem? hq, Option.map_some]
    exact Option.some.inj ((colorAt_eq_getElem? hq').symm.trans hget)
  · have hq' : ¬ (b.recolored π).Contains q := hq
    rw [colorAt_eq_none hq, colorAt_eq_none hq', Option.map_none]

/-- The symmetry that gives other names to the colors. -/
def Symmetry.ofColors : Symmetry where
  toMotion := Motion.rest
  color := π
  routine := Equiv.refl Nat
  routine_zero := Equiv.refl_apply 0

theorem Symmetry.onInstruction_ofColors (i : Instruction) :
    (ofColors π).onInstruction i = i.recolored π := by
  obtain ⟨o, guard⟩ := i
  cases o <;> rfl

theorem Symmetry.onProgram_recolored (p : Program) :
    (ofColors π).OnProgram p (p.recolored π) where
  size := List.length_map _
  routine k := by
    have hroutine : (ofColors π).onRoutine = fun r ↦ r.map (Option.map (Instruction.recolored π)) :=
      funext fun r ↦ by rw [onRoutine, funext (onInstruction_ofColors π)]
    rw [hroutine]
    exact List.getElem?_map
  undeclared _ _ := rfl

theorem Symmetry.onScene_recolored (s : Scene) : (ofColors π).OnScene s (s.recolored π) where
  colorAt := s.board.colorAt_recolored π
  robot := rfl
  goals _ := Iff.rfl

end Colors

/-! ### Routines -/

section Routines

variable {n k : Nat} {σ : Equiv.Perm (Fin n)}

/-- The new index of a routine, where so many routines are put into another order. An index without
a routine is kept. -/
def Routine.reindex (σ : Equiv.Perm (Fin n)) : Equiv.Perm Nat := σ.extendDomain Fin.equivSubtype

theorem Routine.reindex_of_lt (hk : k < n) : reindex σ k = σ ⟨k, hk⟩ :=
  Equiv.Perm.extendDomain_apply_image σ Fin.equivSubtype ⟨k, hk⟩

theorem Routine.reindex_of_le (hk : n ≤ k) : reindex σ k = k :=
  Equiv.Perm.extendDomain_apply_not_subtype σ Fin.equivSubtype (Nat.not_lt.2 hk)

/-- The operation with another index for the routine, if it calls one. -/
def Operation.retargeted (f : Nat → Nat) : Operation → Operation
  | .call target => .call (f target)
  | o => o

/-- The instruction with another index for the routine that it calls, if it does. -/
def Instruction.retargeted (f : Nat → Nat) (i : Instruction) : Instruction :=
  ⟨i.operation.retargeted f, i.guard⟩

/-- The routine with other indices in its calls. -/
def Routine.retargeted (f : Nat → Nat) (r : Routine) : Routine :=
  r.map (Option.map (Instruction.retargeted f))

/-- The program with its routines in another order, the one with index `k` having the index `σ k`
now, also in all calls of it. -/
def Program.reordered (p : Program) (σ : Equiv.Perm (Fin p.size)) : Program :=
  ⟨List.ofFn fun k ↦ (p.routines.get (σ.symm k)).retargeted (Routine.reindex σ)⟩

/-- The symmetry that gives other names to the routines, but not to the first one. -/
def Symmetry.ofRoutines (ρ : Equiv.Perm Nat) (hzero : ρ 0 = 0) : Symmetry where
  toMotion := Motion.rest
  color := Equiv.refl Color
  routine := ρ
  routine_zero := hzero

theorem Symmetry.onRoutine_ofRoutines (ρ : Equiv.Perm Nat) (hzero : ρ 0 = 0) (r : Routine) :
    (ofRoutines ρ hzero).onRoutine r = r.retargeted ρ := by
  have hinstruction : (ofRoutines ρ hzero).onInstruction = Instruction.retargeted ρ := by
    funext i
    obtain ⟨o, guard⟩ := i
    have hguard : guard.map (ofRoutines ρ hzero).color = guard := Option.map_id_apply
    rw [onInstruction, hguard]
    cases o <;> rfl
  rw [onRoutine, hinstruction]
  rfl

theorem Program.size_reordered (p : Program) (σ : Equiv.Perm (Fin p.size)) :
    (p.reordered σ).size = p.size :=
  List.length_ofFn

theorem Program.getElem?_reordered (p : Program) (σ : Equiv.Perm (Fin p.size)) (k : Nat) :
    (p.reordered σ).routines[Routine.reindex σ k]? =
      p.routines[k]?.map (Routine.retargeted (Routine.reindex σ)) := by
  rcases Nat.lt_or_ge k p.size with hk | hk
  · have hget : p.routines[k]? = some (p.routines.get ⟨k, hk⟩) := List.getElem?_eq_getElem hk
    rw [Routine.reindex_of_lt hk, reordered, List.getElem?_ofFn, dif_pos (σ ⟨k, hk⟩).isLt, hget,
      Option.map_some, Fin.eta, Equiv.symm_apply_apply]
    rfl
  · have hnone : p.routines[k]? = none := List.getElem?_eq_none hk
    have hnone' : (p.reordered σ).routines[k]? = none :=
      List.getElem?_eq_none ((p.size_reordered σ).trans_le hk)
    rw [Routine.reindex_of_le hk, hnone, hnone', Option.map_none]

/-- The first routine stays the first, and without routines so does the index. -/
theorem Routine.reindex_zero (hzero : ∀ h : 0 < n, σ ⟨0, h⟩ = ⟨0, h⟩) : reindex σ 0 = 0 := by
  rcases Nat.eq_zero_or_pos n with hn | hn
  · exact reindex_of_le (Nat.le_of_eq hn)
  · rw [reindex_of_lt hn, hzero hn]

theorem Symmetry.onProgram_reordered (p : Program) (σ : Equiv.Perm (Fin p.size))
    (hzero : Routine.reindex σ 0 = 0) :
    (ofRoutines (Routine.reindex σ) hzero).OnProgram p (p.reordered σ) where
  size := p.size_reordered σ
  routine k := by
    rw [funext (onRoutine_ofRoutines _ hzero)]
    exact p.getElem?_reordered σ k
  undeclared _ := Routine.reindex_of_le

theorem Symmetry.onScene_ofRoutines (ρ : Equiv.Perm Nat) (hzero : ρ 0 = 0) (s : Scene) :
    (ofRoutines ρ hzero).OnScene s s where
  colorAt _ := Option.map_id_apply.symm
  robot := rfl
  goals _ := Iff.rfl

end Routines

/-! ### Whole runs -/

/-- **Names do not matter.** Other names for the colors, on the board and in the program, do not
change how a run ends, nor when. Neither does another order of the routines in which the first one
keeps its place, the calls naming them by their new indices and calls of routines that do not exist
being kept: the run ends with the same outcome or with the same fault. -/
theorem ending_recolored_reordered :
    (∀ (π : Equiv.Perm Color) (fuel : Nat) (s : Scene) (p : Program),
      (run fuel (s.recolored π) (p.recolored π)).map Halt.ending =
        (run fuel s p).map Halt.ending) ∧
    ∀ (fuel : Nat) (s : Scene) (p : Program) (σ : Equiv.Perm (Fin p.size)),
      (∀ h : 0 < p.size, σ ⟨0, h⟩ = ⟨0, h⟩) →
        (run fuel s (p.reordered σ)).map Halt.ending = (run fuel s p).map Halt.ending := by
  constructor
  · intro π fuel s p
    exact Symmetry.map_ending_run (Symmetry.onProgram_recolored π p)
      (Symmetry.onScene_recolored π s) fuel
  · intro fuel s p σ hfirst
    have hzero := Routine.reindex_zero hfirst
    exact Symmetry.map_ending_run (Symmetry.onProgram_reordered p σ hzero)
      (Symmetry.onScene_ofRoutines _ hzero s) fuel

/-- A red tile between two green ones, with the robot on the first one and a goal on the last. -/
def redBetween : Scene where
  board := ⟨3, 1, #[some .green, some .red, some .green], rfl⟩
  robot := ⟨⟨0, 0⟩, .east⟩
  goals := .ofList [⟨0, 2⟩]

/-- Runs the routine that goes one tile on and then calls, on a red tile only, a routine that does
not exist; in between there is a routine that is never run. -/
def strayCall : Program :=
  ⟨[[some ⟨.call 2, none⟩], [some ⟨.left, none⟩],
    [some ⟨.call 7, some .red⟩, some ⟨.forward, none⟩, some ⟨.call 7, some .red⟩]]⟩

/-- Exchanges the last two routines. -/
def lastExchanged : Equiv.Perm (Fin strayCall.size) :=
  Equiv.swap ⟨1, by decide⟩ ⟨2, by decide⟩

/-- With the last two routines exchanged, the call of the third is one of the second, and the run
ends with the same fault. -/
theorem ending_reordered_strayCall :
    (∀ h : 0 < strayCall.size, lastExchanged ⟨0, h⟩ = ⟨0, h⟩) ∧
      strayCall.reordered lastExchanged =
        ⟨[[some ⟨.call 1, none⟩],
          [some ⟨.call 7, some .red⟩, some ⟨.forward, none⟩, some ⟨.call 7, some .red⟩],
          [some ⟨.left, none⟩]]⟩ ∧
      (run 4 redBetween (strayCall.reordered lastExchanged)).map Halt.ending =
        some (.faulted (.undeclared 7 3)) := by
  have hhalts : HaltsAt strayCall (Config.start redBetween) 3
      ⟨.faulted (.undeclared 7 3), ⟨redBetween.board, ⟨⟨0, 1⟩, .east⟩, redBetween.goals⟩⟩ :=
    ⟨_, rfl, rfl, rfl⟩
  have hrun := run_of_haltsAt_of_nodup hhalts (by decide)
  have hfirst : ∀ h : 0 < strayCall.size, lastExchanged ⟨0, h⟩ = ⟨0, h⟩ := fun _ ↦ rfl
  refine ⟨hfirst, by decide, ?_⟩
  rw [ending_recolored_reordered.2 4 redBetween strayCall lastExchanged hfirst, hrun]
  rfl

end TileRobot
