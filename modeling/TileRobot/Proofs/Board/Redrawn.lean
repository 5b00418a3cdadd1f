import Mathlib.Logic.Equiv.Defs
import TileRobot.Scene

/-!
# Redrawn scenes

A scene can be drawn again with every position moved to another one, on a board of another size.
The colors go along, and what lies outside of the old board has none on the new one. So a position
looks as before where it has been moved to, provided that the new board is large enough for all
tiles of the old one (`Board.colorAt_redrawn`).
-/

namespace TileRobot

variable {b : Board} {width height : Nat} {e : Equiv.Perm Position} {q : Position}

namespace Board

/-- The position of the tile with the given place, on a board of so many columns. -/
def positionAt (width place : Nat) : Position :=
  ⟨(place / width : Nat), (place % width : Nat)⟩

theorem positionAt_place (hq : b.Contains q) : positionAt b.width (b.place q) = q := by
  obtain ⟨⟨hrow, -⟩, hcol, hcol'⟩ := hq
  have hlt : q.col.toNat < b.width := by omega
  have hdiv : b.place q / b.width = q.row.toNat := by
    rw [place, Nat.mul_comm, Nat.mul_add_div (by omega), Nat.div_eq_of_lt hlt, Nat.add_zero]
  have hmod : b.place q % b.width = q.col.toNat := by
    rw [place, Nat.mul_comm, Nat.mul_add_mod, Nat.mod_eq_of_lt hlt]
  rw [positionAt, hdiv, hmod]
  exact Position.ext (Int.toNat_of_nonneg hrow) (Int.toNat_of_nonneg hcol)

/-- The board of the given size whose tile at `e q` has the color that `b` has at `q`. -/
def redrawn (b : Board) (width height : Nat) (e : Equiv.Perm Position) : Board where
  width := width
  height := height
  tiles := Array.ofFn fun i : Fin (height * width) ↦ b.colorAt (e.symm (positionAt width i))
  size_tiles := Array.size_ofFn

theorem colorAt_redrawn_of_contains (hq : (b.redrawn width height e).Contains q) :
    (b.redrawn width height e).colorAt q = b.colorAt (e.symm q) := by
  have hlt := place_lt_size hq
  have htile : (b.redrawn width height e).tiles[(b.redrawn width height e).place q] =
      b.colorAt (e.symm (positionAt width ((b.redrawn width height e).place q))) :=
    Array.getElem_ofFn _
  rw [colorAt, dif_pos hq, htile]
  exact congrArg (fun r ↦ b.colorAt (e.symm r)) (positionAt_place hq)

/-- **A position looks as before where it has been moved to**, if no tile of the board is moved off
the new one. -/
theorem colorAt_redrawn (hfits : ∀ q, b.Contains q → (b.redrawn width height e).Contains (e q))
    (q : Position) : (b.redrawn width height e).colorAt (e q) = b.colorAt q := by
  by_cases hq : (b.redrawn width height e).Contains (e q)
  · rw [colorAt_redrawn_of_contains hq, Equiv.symm_apply_apply]
  · rw [colorAt_eq_none hq, colorAt_eq_none fun hold ↦ hq (hfits q hold)]

end Board

namespace Goals

variable {g : Goals}

/-- The set of the positions to which the members are moved. -/
def map (g : Goals) (e : Position → Position) : Goals := ofList (g.toList.map e)

theorem apply_mem_map : e q ∈ g.map e ↔ q ∈ g := by
  rw [map, mem_ofList, List.mem_map]
  constructor
  · intro hq
    obtain ⟨r, hr, heq⟩ := hq
    exact e.injective heq ▸ hr
  · exact fun hq ↦ ⟨q, hq, rfl⟩

end Goals

/-- The scene drawn on a board of the given size, positions being moved by `e` and the robot being
turned by `k`. -/
def Scene.redrawn (s : Scene) (width height : Nat) (e : Equiv.Perm Position)
    (k : Heading → Heading) : Scene where
  board := s.board.redrawn width height e
  robot := ⟨e s.robot.position, k s.robot.heading⟩
  goals := s.goals.map e

end TileRobot
