import Mathlib.Data.Finset.Prod
import TileRobot.Board.Basic

/-!
# The passable positions of a board

They lie in the rectangle of the board, so there are finitely many of them, and they can be listed
and counted (`Board.passables`).
-/

namespace TileRobot.Board

variable {b : Board} {q : Position}

/-- The positions that a board contains. -/
def rectangle (b : Board) : Finset Position :=
  (Finset.range b.height ×ˢ Finset.range b.width).image fun q ↦ ⟨q.1, q.2⟩

theorem mem_rectangle : q ∈ b.rectangle ↔ b.Contains q := by
  simp only [rectangle, Finset.mem_image, Finset.mem_product, Finset.mem_range]
  constructor
  · rintro ⟨⟨row, col⟩, ⟨hrow, hcol⟩, rfl⟩
    exact ⟨⟨Int.natCast_nonneg row, Int.ofNat_lt.2 hrow⟩,
      Int.natCast_nonneg col, Int.ofNat_lt.2 hcol⟩
  · rintro ⟨⟨hrow, hheight⟩, hcol, hwidth⟩
    refine ⟨(q.row.toNat, q.col.toNat), ⟨by omega, by omega⟩, ?_⟩
    exact Position.ext (Int.toNat_of_nonneg hrow) (Int.toNat_of_nonneg hcol)

/-- The passable positions. -/
def passables (b : Board) : Finset Position := b.rectangle.filter fun q ↦ b.Passable q

@[simp] theorem mem_passables : q ∈ b.passables ↔ b.Passable q := by
  rw [passables, Finset.mem_filter, mem_rectangle]
  exact and_iff_right_of_imp Passable.contains

end TileRobot.Board
