import Mathlib.Data.Set.List
import TileRobot.Board.Text
import TileRobot.Proofs.Text.Parts

/-!
# Boards and their drawings

Which rows of characters draw a board, and which board they draw. A text draws one exactly if its
lines are a drawing (`Board.exists_ofText_iff`): there is a line, all lines are equally long and not
empty, and every character is a letter of a tile. The board has then the shape of the drawing, and
each of its tiles is the one that the character at its place stands for (`Board.shows_of_ofText`).

Both rest on the fact that reading and writing tiles are inverse to each other, so that a text that
can be read is the written form of its rows of tiles (`Board.ofText_eq_ok_iff`). What is left then
is arithmetic of the row-by-row array (`Board.getElem?_flatten`).
-/

namespace TileRobot

namespace Tile

/-- The characters that stand for tiles. -/
def letters : List Char := ['R', 'G', 'B', ' ']

theorem letter_injective {t u : Tile} (h : letter t = letter u) : t = u :=
  Option.some.inj ((ofLetter?_eq_some_iff.2 rfl).symm.trans (ofLetter?_eq_some_iff.2 h))

theorem letter_mem_letters (t : Tile) : letter t ∈ letters := by
  rcases t with - | - | - | - <;> decide

theorem exists_letter_eq {x : Char} (hx : x ∈ letters) : ∃ t, x = letter t := by
  simp only [letters, List.mem_cons, List.not_mem_nil, or_false] at hx
  rcases hx with rfl | rfl | rfl | rfl
  · exact ⟨some .red, rfl⟩
  · exact ⟨some .green, rfl⟩
  · exact ⟨some .blue, rfl⟩
  · exact ⟨none, rfl⟩

/-- **Characters that stand for tiles are the written form of tiles.** -/
theorem forall_mem_letters_iff {line : List Char} :
    (∀ x ∈ line, x ∈ letters) ↔ ∃ tiles : List Tile, line = tiles.map letter := by
  constructor
  · intro hline
    have hrange : line ∈ Set.range (List.map letter) := by
      rw [Set.range_list_map]
      exact fun x hx ↦ (exists_letter_eq (hline x hx)).imp fun _ ↦ Eq.symm
    exact hrange.imp fun _ ↦ Eq.symm
  · rintro ⟨tiles, rfl⟩ x hx
    obtain ⟨t, -, rfl⟩ := List.mem_map.1 hx
    exact t.letter_mem_letters

end Tile

namespace Board

variable {b : Board} {p : Position} {rows : List (List Tile)} {lines : List (List Char)}
  {text : String}

/-! ### Rows of tiles -/

/-- Rows of one length lie in the row-by-row array one after the other. -/
theorem getElem?_flatten {α : Type} {w r c : Nat} {rows : List (List α)}
    (hrows : ∀ row ∈ rows, row.length = w) (hc : c < w) :
    rows.flatten[r * w + c]? = rows[r]?.bind (·[c]?) := by
  induction rows generalizing r with
  | nil => rfl
  | cons row rows ih =>
    obtain ⟨hrow, hrest⟩ := List.forall_mem_cons.1 hrows
    rw [List.flatten_cons]
    rcases r with - | r
    · rw [Nat.zero_mul, Nat.zero_add, List.getElem?_append_left (hrow.symm ▸ hc)]
      rfl
    · rw [Nat.succ_mul, Nat.add_right_comm, List.getElem?_append_right (by omega), hrow,
        Nat.add_sub_cancel, ih hrest]
      rfl

/-- The board that rows of tiles make, if they make one. -/
theorem ofRows_eq_ok_iff : ofRows rows = .ok b ↔
    rows ≠ [] ∧ 0 < b.width ∧ (∀ row ∈ rows, row.length = b.width) ∧ b.height = rows.length ∧
      b.tiles = rows.flatten.toArray := by
  constructor
  · intro h
    simp only [ofRows] at h
    split at h
    · contradiction
    rename_i hwidth
    split at h
    · contradiction
    rename_i hodd
    obtain rfl := Except.ok.inj h
    refine ⟨?_, Nat.pos_of_ne_zero hwidth, length_eq_of_oddRow?_eq_none hodd, rfl, rfl⟩
    rintro rfl
    exact hwidth rfl
  · rintro ⟨hne, hpos, hrows, hheight, htiles⟩
    have hwidth : (rows.head?.getD []).length = b.width := by
      obtain ⟨row, rest, rfl⟩ := List.exists_cons_of_ne_nil hne
      exact hrows row List.mem_cons_self
    simp only [ofRows]
    split
    · omega
    split
    · rename_i row index hodd
      rw [oddRow?] at hodd
      have hentry := List.mem_zipIdx_iff_getElem?.1 (List.mem_of_find?_eq_some hodd)
      have hlength := List.find?_some hodd
      exact absurd ((hrows row (List.mem_of_getElem? hentry)).trans hwidth.symm)
        (of_decide_eq_true hlength)
    · exact congrArg Except.ok (Board.ext hwidth hheight.symm htiles.symm)

/-- Rows of tiles make a board exactly if they have one length, and that is not zero. -/
theorem exists_ofRows_iff : (∃ b, ofRows rows = .ok b) ↔
    rows ≠ [] ∧ ∃ w, 0 < w ∧ ∀ row ∈ rows, row.length = w := by
  constructor
  · rintro ⟨b, hb⟩
    obtain ⟨hne, hpos, hrows, -⟩ := ofRows_eq_ok_iff.1 hb
    exact ⟨hne, b.width, hpos, hrows⟩
  · rintro ⟨hne, w, hpos, hrows⟩
    have hsize : rows.flatten.toArray.size = rows.length * w := by
      rw [List.size_toArray, length_flatten_of_length_eq hrows]
    exact ⟨⟨w, rows.length, rows.flatten.toArray, hsize⟩,
      ofRows_eq_ok_iff.2 ⟨hne, hpos, hrows, rfl, rfl⟩⟩

/-- Each tile of a board that was made of rows is the one at its place in the rows. -/
theorem colorAt_of_ofRows (hb : ofRows rows = .ok b) {r c : Nat} {t : Tile}
    (ht : rows[r]?.bind (·[c]?) = some t) : b.colorAt ⟨r, c⟩ = t := by
  obtain ⟨-, -, hrows, hheight, htiles⟩ := ofRows_eq_ok_iff.1 hb
  obtain ⟨row, hrow, htile⟩ := Option.bind_eq_some_iff.1 ht
  obtain ⟨hr, -⟩ := List.getElem?_eq_some_iff.1 hrow
  obtain ⟨hc, -⟩ := List.getElem?_eq_some_iff.1 htile
  have hwidth := hrows row (List.mem_of_getElem? hrow)
  have hcontains : b.Contains ⟨r, c⟩ := by
    show (0 ≤ (r : Int) ∧ (r : Int) < b.height) ∧ 0 ≤ (c : Int) ∧ (c : Int) < b.width
    omega
  have hflat : rows.flatten[r * b.width + c]? = some t :=
    (getElem?_flatten hrows (by omega)).trans ht
  have hget := colorAt_eq_getElem? hcontains
  rw [htiles, List.getElem?_toArray] at hget
  exact Option.some.inj (hget.symm.trans hflat)

/-! ### Rows of characters -/

/-- Rows of characters are a drawing when there is one, all are equally long and not empty, and each
character stands for a tile. -/
structure Drawing (lines : List (List Char)) : Prop where
  /-- There is a row. -/
  ne_nil : lines ≠ []
  /-- The rows have one length, and that is not zero. -/
  width : ∃ w, 0 < w ∧ ∀ line ∈ lines, line.length = w
  /-- Each character stands for a tile. -/
  letters : ∀ line ∈ lines, ∀ x ∈ line, x ∈ Tile.letters

/-- A board shows rows of characters when it has their shape, and each character stands for the tile
at its place. -/
structure Shows (b : Board) (lines : List (List Char)) : Prop where
  /-- There are as many rows. -/
  height : b.height = lines.length
  /-- Each row is as long. -/
  width : ∀ line ∈ lines, line.length = b.width
  /-- Each character is the letter of the tile at its place. -/
  letter : ∀ (r c : Nat) (x : Char), lines[r]?.bind (·[c]?) = some x →
    x = Tile.letter (b.colorAt ⟨r, c⟩)

/-- In rows of characters a position is colored when the letter of a color stands there. -/
def ColoredIn (lines : List (List Char)) (p : Position) : Prop :=
  ∃ (r c : Nat) (color : Color), p = ⟨r, c⟩ ∧ lines[r]?.bind (·[c]?) = some color.letter

/-- At each position of a board that shows rows of characters stands the letter of its tile. -/
theorem Shows.exists_letter (hb : b.Shows lines) (hp : b.Contains p) : ∃ r c : Nat, p = ⟨r, c⟩ ∧
    lines[r]?.bind (·[c]?) = some (Tile.letter (b.colorAt p)) := by
  obtain ⟨⟨hr, hr'⟩, hc, hc'⟩ := hp
  have hplace : p = ⟨p.row.toNat, p.col.toNat⟩ :=
    Position.ext (Int.toNat_of_nonneg hr).symm (Int.toNat_of_nonneg hc).symm
  have hrow : p.row.toNat < lines.length := by
    have := hb.height
    omega
  have hcol : p.col.toNat < lines[p.row.toNat].length := by
    rw [hb.width _ (List.getElem_mem hrow)]
    omega
  have hchar : lines[p.row.toNat]?.bind (·[p.col.toNat]?) =
      some lines[p.row.toNat][p.col.toNat] := by
    rw [List.getElem?_eq_getElem hrow, Option.bind_some, List.getElem?_eq_getElem hcol]
  have hletter := hb.letter _ _ _ hchar
  rw [← hplace] at hletter
  exact ⟨_, _, hplace, hchar.trans (congrArg some hletter)⟩

/-- **The passable positions are the colored ones.** -/
theorem Shows.passable_iff (hb : b.Shows lines) (p : Position) :
    b.Passable p ↔ ColoredIn lines p := by
  constructor
  · intro hp
    obtain ⟨color, hcolor⟩ := Board.passable_iff.1 hp
    obtain ⟨r, c, hplace, hchar⟩ := hb.exists_letter hp.contains
    rw [hcolor] at hchar
    exact ⟨r, c, color, hplace, hchar⟩
  · rintro ⟨r, c, color, rfl, hchar⟩
    have hletter : Tile.letter (some color) = Tile.letter (b.colorAt ⟨r, c⟩) :=
      hb.letter r c color.letter hchar
    exact Board.passable_iff.2 ⟨color, (Tile.letter_injective hletter).symm⟩

/-! ### Texts -/

theorem tilesOfLine_eq_ok_iff {n : Nat} {line : List Char} {tiles : List Tile} :
    tilesOfLine n line = .ok tiles ↔ line = tiles.map Tile.letter := by
  refine Text.mapM_zipIdx_eq_ok_iff fun x col t ↦ ?_
  rw [← Tile.ofLetter?_eq_some_iff]
  dsimp only
  rcases Tile.ofLetter? x with - | u
  · simp only [reduceCtorEq]
  · exact ⟨fun h ↦ congrArg some (Except.ok.inj h), fun h ↦ congrArg Except.ok (Option.some.inj h)⟩

/-- **A text that can be read is the written form of its rows of tiles.** -/
theorem ofText_eq_ok_iff : ofText text = .ok b ↔
    ∃ rows, text.toList.splitOn '\n' = rows.map (List.map Tile.letter) ∧ ofRows rows = .ok b := by
  refine Text.bind_eq_ok_iff.trans (exists_congr fun rows ↦ and_congr_left fun _ ↦ ?_)
  exact Text.mapM_zipIdx_eq_ok_iff fun _ _ _ ↦ tilesOfLine_eq_ok_iff

/-- Rows of characters that stand for tiles are the written form of rows of tiles. -/
theorem exists_map_letter_eq (hletters : ∀ line ∈ lines, ∀ x ∈ line, x ∈ Tile.letters) :
    ∃ rows : List (List Tile), lines = rows.map (List.map Tile.letter) := by
  have hlines : lines ∈ Set.range (List.map (List.map Tile.letter)) := by
    rw [Set.range_list_map]
    exact fun line hline ↦
      (Tile.forall_mem_letters_iff.1 (hletters line hline)).imp fun _ ↦ Eq.symm
  exact hlines.imp fun _ ↦ Eq.symm

theorem forall_mem_letters_map (rows : List (List Tile)) :
    ∀ line ∈ rows.map (List.map Tile.letter), ∀ x ∈ line, x ∈ Tile.letters := by
  intro line hline
  obtain ⟨row, -, rfl⟩ := List.mem_map.1 hline
  exact Tile.forall_mem_letters_iff.2 ⟨row, rfl⟩

theorem drawing_map_iff : Drawing (rows.map (List.map Tile.letter)) ↔
    rows ≠ [] ∧ ∃ w, 0 < w ∧ ∀ row ∈ rows, row.length = w := by
  have hwidth : ∀ w, (∀ line ∈ rows.map (List.map Tile.letter), line.length = w) ↔
      ∀ row ∈ rows, row.length = w := fun w ↦ by
    simp only [List.forall_mem_map, List.length_map]
  constructor
  · rintro ⟨hne, ⟨w, hpos, hlines⟩, -⟩
    exact ⟨mt List.map_eq_nil_iff.2 hne, w, hpos, (hwidth w).1 hlines⟩
  · rintro ⟨hne, w, hpos, hrows⟩
    exact ⟨mt List.map_eq_nil_iff.1 hne, ⟨w, hpos, (hwidth w).2 hrows⟩, forall_mem_letters_map rows⟩

/-- **A text draws a board exactly if its lines are a drawing.** -/
theorem exists_ofText_iff : (∃ b, ofText text = .ok b) ↔ Drawing (text.toList.splitOn '\n') := by
  simp only [ofText_eq_ok_iff]
  constructor
  · rintro ⟨b, rows, hlines, hb⟩
    rw [hlines]
    exact drawing_map_iff.2 (exists_ofRows_iff.1 ⟨b, hb⟩)
  · intro hdrawing
    obtain ⟨rows, hlines⟩ := exists_map_letter_eq hdrawing.letters
    rw [hlines] at hdrawing
    obtain ⟨b, hb⟩ := exists_ofRows_iff.2 (drawing_map_iff.1 hdrawing)
    exact ⟨b, rows, hlines, hb⟩

/-- **The board that a text draws shows its lines.** -/
theorem shows_of_ofText (hb : ofText text = .ok b) : b.Shows (text.toList.splitOn '\n') := by
  obtain ⟨rows, hlines, hrows⟩ := ofText_eq_ok_iff.1 hb
  obtain ⟨-, -, hwidth, hheight, -⟩ := ofRows_eq_ok_iff.1 hrows
  rw [hlines]
  refine ⟨?_, ?_, ?_⟩
  · rw [hheight, List.length_map]
  · intro line hline
    obtain ⟨row, hrow, rfl⟩ := List.mem_map.1 hline
    rw [List.length_map, hwidth row hrow]
  · intro r c x hx
    obtain ⟨line, hline, hchar⟩ := Option.bind_eq_some_iff.1 hx
    rw [List.getElem?_map] at hline
    obtain ⟨row, hrow, rfl⟩ := Option.map_eq_some_iff.1 hline
    rw [List.getElem?_map] at hchar
    obtain ⟨t, ht, rfl⟩ := Option.map_eq_some_iff.1 hchar
    rw [colorAt_of_ofRows hrows (Option.bind_eq_some_iff.2 ⟨row, hrow, ht⟩)]

end Board

end TileRobot
