import TileRobot.Board.Basic
/-!
# Boards as text

A board is written as one line for each row, a letter for each colored tile and a blank for each
hole. Rows make a board when there is at least one tile and all rows are equally long
(`Board.ofRows`); a text makes a board when in addition every character stands for a tile
(`Board.ofText`).

Of several faults the first unknown character, in reading order, is reported before any fault in
the shape.
-/

namespace TileRobot

/-- Why rows or a text are no board. -/
inductive BoardFault where
  /-- The first row is missing or has no tiles. -/
  | noTiles
  /-- The row with index `row` has `found` tiles where the first row has `expected`. -/
  | raggedRow (row expected found : Nat)
  /-- The character `found` stands for no tile. -/
  | unknownTile (row col : Nat) (found : Char)
deriving DecidableEq, Repr

namespace Tile

/-- The character that stands for a tile. -/
def letter : Tile → Char
  | some c => c.letter
  | none => ' '

/-- The tile that a character stands for. -/
def ofLetter? (x : Char) : Option Tile :=
  if x = ' ' then some none else (Color.ofLetter? x).map some

theorem ofLetter?_eq_some_iff {x : Char} {t : Tile} : ofLetter? x = some t ↔ x = letter t := by
  cases t with
  | none =>
    simp only [ofLetter?, letter]
    split <;> simp_all
  | some c =>
    have hne : c.letter ≠ ' ' := by cases c <;> decide
    simp only [ofLetter?, letter]
    split
    · rename_i h
      simp [h, Ne.symm hne]
    · simp [Color.ofLetter?_eq_some_iff]

end Tile

namespace Board

/-! ### Rows -/

theorem length_flatten_of_length_eq {α : Type} {w : Nat} {rows : List (List α)}
    (h : ∀ row ∈ rows, row.length = w) : rows.flatten.length = rows.length * w := by
  induction rows with
  | nil => simp
  | cons row rows ih =>
    rw [List.flatten_cons, List.length_append, h row (by simp),
      ih fun r hr ↦ h r (List.mem_cons_of_mem _ hr), List.length_cons, Nat.add_mul, Nat.one_mul,
      Nat.add_comm]

/-- The first row whose length is not `w`, with its index. -/
def oddRow? (w : Nat) (rows : List (List Tile)) : Option (List Tile × Nat) :=
  rows.zipIdx.find? fun row ↦ row.1.length ≠ w

theorem length_eq_of_oddRow?_eq_none {w : Nat} {rows : List (List Tile)}
    (h : oddRow? w rows = none) : ∀ row ∈ rows, row.length = w := by
  intro row hrow
  obtain ⟨i, hi, rfl⟩ := List.getElem_of_mem hrow
  have hmem : (rows[i], i) ∈ rows.zipIdx := List.mem_zipIdx_iff_getElem?.2 (by simp)
  simpa using List.find?_eq_none.1 h _ hmem

/-- The board with the given rows of tiles, from north to south. -/
def ofRows (rows : List (List Tile)) : Except BoardFault Board :=
  let width := (rows.head?.getD []).length
  if width = 0 then .error .noTiles
  else
    match h : oddRow? width rows with
    | some (row, index) => .error (.raggedRow index width row.length)
    | none => .ok {
        width := width
        height := rows.length
        tiles := rows.flatten.toArray
        size_tiles := by
          rw [List.size_toArray, length_flatten_of_length_eq (length_eq_of_oddRow?_eq_none h)] }

/-- The rows of a board, from north to south. -/
def rows (b : Board) : List (List Tile) :=
  (List.range b.height).map fun (r : Nat) ↦
    (List.range b.width).map fun (c : Nat) ↦ b.colorAt ⟨r, c⟩

/-! ### Text -/

/-- The tiles of one line, which is the line with index `row` of its text. -/
def tilesOfLine (row : Nat) (line : List Char) : Except BoardFault (List Tile) :=
  line.zipIdx.mapM fun (x, col) ↦
    match Tile.ofLetter? x with
    | some tile => .ok tile
    | none => .error (.unknownTile row col x)

/-- The board that a text writes, one line for each row. -/
def ofText (text : String) : Except BoardFault Board := do
  let rows ← (text.toList.splitOn '\n').zipIdx.mapM fun (line, row) ↦ tilesOfLine row line
  ofRows rows

/-- The lines that write a board. -/
def lines (b : Board) : List String :=
  b.rows.map fun row ↦ String.ofList (row.map Tile.letter)

end Board

end TileRobot
