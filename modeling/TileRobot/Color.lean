/-!
# Colors

The three tile colors. A color has a letter, by which boards and programs write it, a name, by
which reports speak of it, and a keyword, by which level documents write it. Each determines the
color: `Color.ofLetter?_eq_some_iff` and `Color.ofKeyword?_keyword`.
-/

namespace TileRobot

/-- The color of a tile. -/
inductive Color where
  /-- Red, written `R`. -/
  | red
  /-- Green, written `G`. -/
  | green
  /-- Blue, written `B`. -/
  | blue
deriving DecidableEq, Hashable, Repr

namespace Color

/-- All colors, in the order in which guards are listed. -/
def all : List Color := [red, green, blue]

theorem mem_all (c : Color) : c ∈ all := by
  cases c <;> decide

/-- The letter that stands for a color. -/
def letter : Color → Char
  | red => 'R'
  | green => 'G'
  | blue => 'B'

/-- The color that a letter stands for. -/
def ofLetter? (x : Char) : Option Color :=
  all.find? fun c ↦ c.letter == x

theorem letter_injective {c d : Color} (h : c.letter = d.letter) : c = d := by
  cases c <;> cases d <;> first | rfl | exact absurd h (by decide)

@[simp] theorem ofLetter?_letter (c : Color) : ofLetter? c.letter = some c := by
  cases c <;> decide

theorem ofLetter?_eq_some_iff {x : Char} {c : Color} : ofLetter? x = some c ↔ x = c.letter := by
  constructor
  · intro h
    have hc := List.find?_some h
    exact (eq_of_beq hc).symm
  · rintro rfl
    exact ofLetter?_letter c

/-- The name of a color as reports spell it. -/
def name : Color → String
  | red => "Red"
  | green => "Green"
  | blue => "Blue"

/-- The name of a color as level documents spell it. -/
def keyword : Color → String
  | red => "red"
  | green => "green"
  | blue => "blue"

/-- The color that a level document names by `s`. -/
def ofKeyword? (s : String) : Option Color :=
  all.find? fun c ↦ c.keyword == s

@[simp] theorem ofKeyword?_keyword (c : Color) : ofKeyword? c.keyword = some c := by
  cases c <;> decide

end Color

end TileRobot
