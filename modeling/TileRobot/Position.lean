import TileRobot.Heading
/-!
# Positions

A place on the grid, given by its row and its column. Rows grow to the south and columns to the
east. Both may be negative, so that a position can be named whether or not a board reaches it.

Positions are ordered by row and then by column, which is the order in which sets of positions are
listed.
-/

namespace TileRobot

/-- A place on the grid, on a board or off it. -/
@[ext] structure Position where
  /-- The row, growing to the south. -/
  row : Int
  /-- The column, growing to the east. -/
  col : Int
deriving DecidableEq, Hashable, Repr

namespace Position

/-- The neighbour of a position one tile ahead in a heading. -/
def ahead (p : Position) (h : Heading) : Position where
  row := p.row + h.offset.1
  col := p.col + h.offset.2

/-! ### The order by row, then by column -/

instance : LT Position where
  lt p q := p.row < q.row ∨ (p.row = q.row ∧ p.col < q.col)

instance : LE Position where
  le p q := p.row < q.row ∨ (p.row = q.row ∧ p.col ≤ q.col)

theorem lt_iff {p q : Position} : p < q ↔ p.row < q.row ∨ (p.row = q.row ∧ p.col < q.col) :=
  Iff.rfl

theorem le_iff {p q : Position} : p ≤ q ↔ p.row < q.row ∨ (p.row = q.row ∧ p.col ≤ q.col) :=
  Iff.rfl

instance (p q : Position) : Decidable (p < q) :=
  inferInstanceAs (Decidable (p.row < q.row ∨ (p.row = q.row ∧ p.col < q.col)))

instance (p q : Position) : Decidable (p ≤ q) :=
  inferInstanceAs (Decidable (p.row < q.row ∨ (p.row = q.row ∧ p.col ≤ q.col)))

theorem lt_irrefl (p : Position) : ¬ p < p := by
  simp only [lt_iff]
  omega

theorem lt_trans {p q r : Position} (h : p < q) (k : q < r) : p < r := by
  simp only [lt_iff] at *
  omega

theorem ne_of_lt {p q : Position} (h : p < q) : p ≠ q := fun e ↦ lt_irrefl q (e ▸ h)

theorem lt_of_ne_of_not_lt {p q : Position} (hne : p ≠ q) (h : ¬ q < p) : p < q := by
  simp only [lt_iff, ne_eq, Position.ext_iff] at *
  omega

/-- The positions in order; equal ones all stay. -/
def sort (l : List Position) : List Position :=
  l.mergeSort fun p q ↦ decide (p ≤ q)

theorem mem_sort {p : Position} {l : List Position} : p ∈ sort l ↔ p ∈ l :=
  List.mem_mergeSort

theorem sorted_sort (l : List Position) : (sort l).Pairwise (· ≤ ·) := by
  refine (List.pairwise_mergeSort ?_ ?_ l).imp (by simp)
  · intro p q r
    simp only [decide_eq_true_eq, le_iff]
    omega
  · intro p q
    simp only [Bool.or_eq_true, decide_eq_true_eq, le_iff]
    omega

/-- A position in brackets, row first. -/
def render (p : Position) : String := s!"({p.row}, {p.col})"

end Position

end TileRobot
