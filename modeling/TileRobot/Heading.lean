/-!
# Headings

The four directions a robot can face, in counter-clockwise order. The order is the whole of the
turning rule: a quarter turn to the left is the next heading, a quarter turn to the right the one
before, and everything else about turning is arithmetic modulo four.

## Main statements

* `Heading.index_turn` reduces every turn to addition modulo four.
* `Heading.left_right` and `Heading.right_left`: the two quarter turns undo each other.
-/

namespace TileRobot

/-- The direction a robot faces. North is toward smaller rows, west toward smaller columns. -/
inductive Heading where
  /-- Toward the first row. -/
  | north
  /-- Toward the first column. -/
  | west
  /-- Toward the last row. -/
  | south
  /-- Toward the last column. -/
  | east
deriving DecidableEq, Hashable, Repr

namespace Heading

/-- All headings, counter-clockwise from north. -/
def all : List Heading := [north, west, south, east]

theorem mem_all (h : Heading) : h ∈ all := by
  cases h <;> decide

/-- The place of a heading in `all`. -/
def index : Heading → Nat
  | north => 0
  | west => 1
  | south => 2
  | east => 3

/-- The heading at a place of `all`, places being counted modulo four. -/
def ofIndex (n : Nat) : Heading :=
  match n % 4 with
  | 0 => north
  | 1 => west
  | 2 => south
  | _ => east

@[simp] theorem ofIndex_index (h : Heading) : ofIndex h.index = h := by
  cases h <;> rfl

@[simp] theorem index_ofIndex (n : Nat) : (ofIndex n).index = n % 4 := by
  have h : n % 4 = 0 ∨ n % 4 = 1 ∨ n % 4 = 2 ∨ n % 4 = 3 := by omega
  rcases h with h | h | h | h <;> simp [ofIndex, h, index]

theorem index_injective {h k : Heading} (e : h.index = k.index) : h = k := by
  rw [← ofIndex_index h, e, ofIndex_index]

/-! ### Turning -/

/-- The heading after `n` quarter turns to the left; a negative `n` turns to the right. -/
def turn (h : Heading) (n : Int) : Heading :=
  ofIndex ((h.index + n) % 4).toNat

/-- The heading after a quarter turn to the left, that is counter-clockwise. -/
def left (h : Heading) : Heading := h.turn 1

/-- The heading after a quarter turn to the right, that is clockwise. -/
def right (h : Heading) : Heading := h.turn (-1)

theorem index_turn (h : Heading) (n : Int) : ((h.turn n).index : Int) = (h.index + n) % 4 := by
  simp only [turn, index_ofIndex]
  omega

theorem turn_zero (h : Heading) : h.turn 0 = h := by
  cases h <;> rfl

theorem turn_turn (h : Heading) (m n : Int) : (h.turn m).turn n = h.turn (m + n) := by
  apply index_injective
  have h₁ := index_turn (h.turn m) n
  have h₂ := index_turn h m
  have h₃ := index_turn h (m + n)
  omega

@[simp] theorem left_right (h : Heading) : h.left.right = h := by
  cases h <;> rfl

@[simp] theorem right_left (h : Heading) : h.right.left = h := by
  cases h <;> rfl

/-! ### Moving -/

/-- How the row and the column change on a move of one tile. -/
def offset : Heading → Int × Int
  | north => (-1, 0)
  | west => (0, -1)
  | south => (1, 0)
  | east => (0, 1)

/-- The name of a heading as reports spell it. -/
def name : Heading → String
  | north => "North"
  | west => "West"
  | south => "South"
  | east => "East"

/-- The name of a heading as level documents spell it. -/
def keyword : Heading → String
  | north => "north"
  | west => "west"
  | south => "south"
  | east => "east"

/-- The heading that a level document names by `s`. -/
def ofKeyword? (s : String) : Option Heading :=
  all.find? fun h ↦ h.keyword == s

@[simp] theorem ofKeyword?_keyword (h : Heading) : ofKeyword? h.keyword = some h := by
  cases h <;> decide

end Heading

end TileRobot
