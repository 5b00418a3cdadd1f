import TileRobot.Color
import TileRobot.Position
/-!
# Boards

A board is a rectangle of tiles. A tile has a color, or none, and then a robot cannot enter it.
Boards are seen through `Board.colorAt`, the color under a position; off the board there is none,
so a hole in the board and the outside look alike.

Painting changes colors only: `Board.colorAt_repaint` is the law of a map that is updated at one
key, provided that the key is passable.

## Implementation notes

The tiles lie row by row in one array, and their number is a field of the structure. That two
positions of the board never share a place in the array is `Board.eq_of_place_eq`.
-/

namespace TileRobot

/-- The surface at a place of the board: a color, or `none` where no robot can stand. -/
abbrev Tile := Option Color

/-- A rectangle of tiles. -/
@[ext] structure Board where
  /-- The number of columns. -/
  width : Nat
  /-- The number of rows. -/
  height : Nat
  /-- The tiles, row by row. -/
  tiles : Array Tile
  /-- There is one tile for each place of the rectangle. -/
  size_tiles : tiles.size = height * width
deriving DecidableEq

namespace Board

/-- A board contains a position that lies inside its rectangle, whatever the tile there is. -/
def Contains (b : Board) (p : Position) : Prop :=
  (0 ≤ p.row ∧ p.row < b.height) ∧ (0 ≤ p.col ∧ p.col < b.width)

instance (b : Board) (p : Position) : Decidable (b.Contains p) :=
  inferInstanceAs (Decidable ((0 ≤ p.row ∧ p.row < b.height) ∧ (0 ≤ p.col ∧ p.col < b.width)))

/-- The place of a position's tile in the row-by-row array. -/
def place (b : Board) (p : Position) : Nat :=
  p.row.toNat * b.width + p.col.toNat

theorem place_lt_size {b : Board} {p : Position} (h : b.Contains p) :
    b.place p < b.tiles.size := by
  obtain ⟨⟨hr, hr'⟩, hc, hc'⟩ := h
  have hrow : p.row.toNat + 1 ≤ b.height := by omega
  have hmul := Nat.mul_le_mul_right b.width hrow
  rw [Nat.add_mul] at hmul
  rw [b.size_tiles, place]
  omega

/-- Two positions of a board with the same place are the same. -/
theorem eq_of_place_eq {b : Board} {p q : Position} (hp : b.Contains p) (hq : b.Contains q)
    (h : b.place p = b.place q) : p = q := by
  obtain ⟨⟨hr, hr'⟩, hc, hc'⟩ := hp
  obtain ⟨⟨kr, kr'⟩, kc, kc'⟩ := hq
  have hpc : p.col.toNat < b.width := by omega
  have hqc : q.col.toNat < b.width := by omega
  have hpos : 0 < b.width := by omega
  -- the quotient by the width is the row and the remainder the column
  have hdiv := congrArg (· / b.width) h
  have hmod := congrArg (· % b.width) h
  simp only [place, Nat.mul_comm _ b.width, Nat.mul_add_div hpos, Nat.div_eq_of_lt hpc,
    Nat.div_eq_of_lt hqc, Nat.mul_add_mod, Nat.mod_eq_of_lt hpc, Nat.mod_eq_of_lt hqc] at hdiv hmod
  apply Position.ext <;> omega

/-! ### Colors -/

/-- The color under a position, or `none` where there is none: off the board or at a hole in it. -/
def colorAt (b : Board) (p : Position) : Option Color :=
  if h : b.Contains p then
    have := place_lt_size h
    b.tiles[b.place p]
  else none

/-- A position is passable when the tile there has a color. -/
def Passable (b : Board) (p : Position) : Prop :=
  (b.colorAt p).isSome

instance (b : Board) (p : Position) : Decidable (b.Passable p) :=
  inferInstanceAs (Decidable ((b.colorAt p).isSome = true))

theorem passable_iff {b : Board} {p : Position} : b.Passable p ↔ ∃ c, b.colorAt p = some c :=
  Option.isSome_iff_exists

theorem colorAt_eq_getElem? {b : Board} {p : Position} (h : b.Contains p) :
    b.tiles[b.place p]? = some (b.colorAt p) := by
  have := place_lt_size h
  simp [colorAt, h]

theorem colorAt_eq_none {b : Board} {p : Position} (h : ¬ b.Contains p) : b.colorAt p = none := by
  simp [colorAt, h]

theorem Passable.contains {b : Board} {p : Position} (h : b.Passable p) : b.Contains p :=
  Decidable.byContradiction fun hn ↦ by simp [Passable, colorAt_eq_none hn] at h

/-! ### Painting -/

/-- Painting a position with a color has an effect when the tile there has another color. -/
def Repaints (b : Board) (p : Position) (c : Color) : Prop :=
  b.Passable p ∧ b.colorAt p ≠ some c

instance (b : Board) (p : Position) (c : Color) : Decidable (b.Repaints p c) :=
  inferInstanceAs (Decidable (b.Passable p ∧ b.colorAt p ≠ some c))

/-- The board after painting the tile at a position. Where there is no color, none is put. -/
def repaint (b : Board) (p : Position) (c : Color) : Board :=
  if h : b.Repaints p c then
    { b with
      tiles := b.tiles.set (b.place p) (some c) (place_lt_size h.1.contains)
      size_tiles := by rw [Array.size_set, b.size_tiles] }
  else b

@[simp] theorem width_repaint (b : Board) (p : Position) (c : Color) :
    (b.repaint p c).width = b.width := by
  simp only [repaint]
  split <;> rfl

@[simp] theorem height_repaint (b : Board) (p : Position) (c : Color) :
    (b.repaint p c).height = b.height := by
  simp only [repaint]
  split <;> rfl

@[simp] theorem contains_repaint {b : Board} {p q : Position} {c : Color} :
    (b.repaint p c).Contains q ↔ b.Contains q := by
  simp [Contains]

theorem repaint_of_not_repaints {b : Board} {p : Position} {c : Color} (h : ¬ b.Repaints p c) :
    b.repaint p c = b := by
  simp [repaint, h]

/-- Painting changes the color of the painted tile, if it has one, and of no other. -/
theorem colorAt_repaint (b : Board) (p q : Position) (c : Color) :
    (b.repaint p c).colorAt q = if q = p ∧ b.Passable p then some c else b.colorAt q := by
  by_cases h : b.Repaints p c
  · by_cases hq : b.Contains q
    · have hget := colorAt_eq_getElem? (contains_repaint (p := p) (c := c) |>.2 hq)
      have hplace : (b.repaint p c).place q = b.place q := by simp [place]
      have htiles : (b.repaint p c).tiles
          = b.tiles.set (b.place p) (some c) (place_lt_size h.1.contains) := by
        simp [repaint, h]
      rw [hplace, htiles, Array.getElem?_set] at hget
      by_cases hqp : q = p
      · subst hqp
        simp only [if_true, Option.some.injEq] at hget
        simp [h.1, hget]
      · have hne : b.place p ≠ b.place q := fun e ↦
          hqp (eq_of_place_eq h.1.contains hq e).symm
        rw [if_neg hne, colorAt_eq_getElem? hq] at hget
        simp only [hqp, false_and, if_false]
        exact (Option.some.inj hget).symm
    · have hqp : q ≠ p := fun e ↦ hq (e ▸ h.1.contains)
      rw [colorAt_eq_none hq, colorAt_eq_none (fun hc ↦ hq (contains_repaint.1 hc))]
      simp [hqp]
  · rw [repaint_of_not_repaints h]
    split
    · rename_i hqp
      obtain ⟨rfl, hp⟩ := hqp
      -- a passable tile that painting leaves alone already has the color
      by_cases hc : b.colorAt q = some c
      · exact hc
      · exact absurd ⟨hp, hc⟩ h
    · rfl

@[simp] theorem passable_repaint {b : Board} {p q : Position} {c : Color} :
    (b.repaint p c).Passable q ↔ b.Passable q := by
  rw [Passable, colorAt_repaint]
  split
  · rename_i h
    simp [h.1, h.2]
  · rfl

end Board

end TileRobot
