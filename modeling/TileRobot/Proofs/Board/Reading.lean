import TileRobot.Proofs.Board.Drawing

/-!
# Reading boards

What comes of reading a text as a board, told by the characters of its lines. On the board that is
read a position has the color for whose letter a character stands there, and the board contains it
exactly if there is a character at all (`Shows.colorAt_eq`, `Shows.contains_iff`). A text that is no
board has exactly one of three faults (`Misdrawn`): its first unknown character in reading order, or
else an empty first line, or else the first line that is not as long as the first one.

The order of the three comes from the two passes of the reading: all characters are looked at before
any length is. Within the first pass the lines are read one after the other, so that the characters
before the first unknown one are those of the lines above and those to the left of it
(`exists_append_of_first`), which is the order of positions.
-/

namespace TileRobot

/-- A tile has the color for which its letter stands. -/
theorem Tile.color_letter (t : Tile) : Color.ofLetter? t.letter = t := by
  rcases t with - | c
  · decide
  · exact Color.ofLetter?_letter c

namespace Board

variable {b : Board} {p : Position} {rows : List (List Tile)} {lines : List (List Char)}
  {line : List Char} {text : String} {e : BoardFault} {r c n : Nat} {x : Char}

/-! ### Characters by position -/

/-- The character at a position of the lines. There is none before the first line or character and
after the last. -/
def charAt? (lines : List (List Char)) (p : Position) : Option Char :=
  if 0 ≤ p.row ∧ 0 ≤ p.col then lines[p.row.toNat]?.bind (·[p.col.toNat]?) else none

theorem charAt?_natCast : charAt? lines ⟨r, c⟩ = lines[r]?.bind (·[c]?) :=
  if_pos ⟨Int.natCast_nonneg r, Int.natCast_nonneg c⟩

theorem charAt?_eq_some_iff : charAt? lines p = some x ↔
    ∃ (r c : Nat) (l : List Char), p = ⟨r, c⟩ ∧ lines[r]? = some l ∧ l[c]? = some x := by
  constructor
  · intro hx
    by_cases hp : 0 ≤ p.row ∧ 0 ≤ p.col
    · rw [charAt?, if_pos hp] at hx
      obtain ⟨line, hline, hx⟩ := Option.bind_eq_some_iff.1 hx
      have hplace : p = ⟨p.row.toNat, p.col.toNat⟩ :=
        Position.ext (Int.toNat_of_nonneg hp.1).symm (Int.toNat_of_nonneg hp.2).symm
      exact ⟨_, _, line, hplace, hline, hx⟩
    · rw [charAt?, if_neg hp] at hx
      contradiction
  · intro hx
    obtain ⟨r, c, line, rfl, hline, hx⟩ := hx
    rw [charAt?_natCast, hline, Option.bind_some, hx]

/-- If all characters before a position in reading order have a property, so have those of the lines
above and those of its own line to the left of it. -/
theorem exists_append_of_first {P : Char → Prop} (hx : charAt? lines ⟨r, c⟩ = some x)
    (hfirst : ∀ q : Position, q < ⟨r, c⟩ → ∀ y, charAt? lines q = some y → P y) :
    ∃ above before after below, lines = above ++ (before ++ x :: after) :: below ∧
      above.length = r ∧ before.length = c ∧ (∀ line ∈ above, ∀ y ∈ line, P y) ∧
        ∀ y ∈ before, P y := by
  rw [charAt?_natCast] at hx
  obtain ⟨line, hline, hx⟩ := Option.bind_eq_some_iff.1 hx
  obtain ⟨hr, rfl⟩ := List.getElem?_eq_some_iff.1 hline
  obtain ⟨hc, rfl⟩ := List.getElem?_eq_some_iff.1 hx
  refine ⟨lines.take r, lines[r].take c, lines[r].drop (c + 1), lines.drop (r + 1), ?_,
    List.length_take_of_le hr.le, List.length_take_of_le hc.le, fun l hl y hy ↦ ?_, fun y hy ↦ ?_⟩
  · rw [← List.drop_eq_getElem_cons hc, List.take_append_drop, ← List.drop_eq_getElem_cons hr,
      List.take_append_drop]
  · obtain ⟨j, hj, rfl⟩ := List.mem_take_iff_getElem.1 hl
    obtain ⟨k, hk⟩ := List.mem_iff_getElem?.1 hy
    have hbefore : (⟨j, k⟩ : Position) < ⟨r, c⟩ := Or.inl (Int.ofNat_lt.2 (by omega))
    exact hfirst _ hbefore y (charAt?_eq_some_iff.2
      ⟨j, k, _, rfl, List.getElem?_eq_getElem (by omega), hk⟩)
  · obtain ⟨k, hk, rfl⟩ := List.mem_take_iff_getElem.1 hy
    have hbefore : (⟨r, k⟩ : Position) < ⟨r, c⟩ := Or.inr ⟨rfl, Int.ofNat_lt.2 (by omega)⟩
    exact hfirst _ hbefore _ (charAt?_eq_some_iff.2
      ⟨r, k, _, rfl, hline, List.getElem?_eq_getElem (by omega)⟩)

/-- The characters of the lines above and those to the left are all that come before. -/
theorem first_of_append {P : Char → Prop} {above below : List (List Char)}
    {before after : List Char} (hlines : lines = above ++ (before ++ x :: after) :: below)
    (habove : ∀ line ∈ above, ∀ y ∈ line, P y) (hbefore : ∀ y ∈ before, P y) :
    charAt? lines ⟨above.length, before.length⟩ = some x ∧ ∀ q : Position,
      q < ⟨above.length, before.length⟩ → ∀ y, charAt? lines q = some y → P y := by
  subst hlines
  have hline : (above ++ (before ++ x :: after) :: below)[above.length]? =
      some (before ++ x :: after) := by
    rw [List.getElem?_append_right le_rfl, Nat.sub_self, List.getElem?_cons_zero]
  refine ⟨?_, fun q hq y hy ↦ ?_⟩
  · rw [charAt?_natCast, hline, Option.bind_some, List.getElem?_append_right le_rfl, Nat.sub_self,
      List.getElem?_cons_zero]
  · obtain ⟨j, k, l, rfl, hl, hy⟩ := charAt?_eq_some_iff.1 hy
    rcases hq with hrow | ⟨hrow, hcol⟩
    · rw [List.getElem?_append_left (Int.ofNat_lt.1 hrow)] at hl
      exact habove l (List.mem_of_getElem? hl) y (List.mem_of_getElem? hy)
    · obtain rfl : j = above.length := Int.ofNat_inj.1 hrow
      obtain rfl := Option.some.inj (hline.symm.trans hl)
      rw [List.getElem?_append_left (Int.ofNat_lt.1 hcol)] at hy
      exact hbefore y (List.mem_of_getElem? hy)

/-! ### Boards that show lines -/

/-- A board that shows lines has a tile where they have a character, and the character is the letter
of the tile. -/
theorem Shows.charAt?_eq (hb : b.Shows lines) (hp : b.Contains p) :
    charAt? lines p = some (Tile.letter (b.colorAt p)) := by
  obtain ⟨r, c, hplace, hchar⟩ := hb.exists_letter hp
  rw [← hchar, hplace, charAt?_natCast]

/-- **The positions of the board are those of the characters.** -/
theorem Shows.contains_iff (hb : b.Shows lines) (p : Position) :
    b.Contains p ↔ ∃ x, charAt? lines p = some x := by
  constructor
  · exact fun hp ↦ ⟨_, hb.charAt?_eq hp⟩
  · intro hx
    obtain ⟨x, hx⟩ := hx
    obtain ⟨r, c, line, rfl, hline, hx⟩ := charAt?_eq_some_iff.1 hx
    have hr := (List.getElem?_eq_some_iff.1 hline).1
    have hc := (List.getElem?_eq_some_iff.1 hx).1
    have hwidth := hb.width line (List.mem_of_getElem? hline)
    have hheight := hb.height
    show (0 ≤ (r : Int) ∧ (r : Int) < b.height) ∧ 0 ≤ (c : Int) ∧ (c : Int) < b.width
    omega

/-- **The color of a position is the one for which its character stands.** -/
theorem Shows.colorAt_eq (hb : b.Shows lines) (p : Position) :
    b.colorAt p = (charAt? lines p).bind Color.ofLetter? := by
  by_cases hp : b.Contains p
  · rw [hb.charAt?_eq hp, Option.bind_some, Tile.color_letter]
  · have hnone : charAt? lines p = none := Option.eq_none_iff_forall_ne_some.2 fun x hx ↦
      hp ((hb.contains_iff p).2 ⟨x, hx⟩)
    rw [colorAt_eq_none hp, hnone, Option.bind_none]

/-! ### Rows that are no board -/

/-- The first odd row is one that is not as long, all rows before it being so. -/
theorem oddRow?_eq_some_iff {w : Nat} {row : List Tile} : oddRow? w rows = some (row, n) ↔
    rows[n]? = some row ∧ row.length ≠ w ∧
      ∀ j < n, ∀ other, rows[j]? = some other → other.length = w := by
  rw [oddRow?, List.find?_eq_some_iff_getElem]
  constructor
  · intro hodd
    obtain ⟨hlength, i, hi, hentry, hbefore⟩ := hodd
    rw [List.getElem_zipIdx, Prod.mk.injEq, Nat.zero_add] at hentry
    obtain ⟨rfl, rfl⟩ := hentry
    rw [List.length_zipIdx] at hi
    refine ⟨List.getElem?_eq_getElem hi, of_decide_eq_true hlength, fun j hj other hother ↦ ?_⟩
    obtain ⟨_, rfl⟩ := List.getElem?_eq_some_iff.1 hother
    simpa using hbefore j hj
  · intro hodd
    obtain ⟨hrow, hlength, hbefore⟩ := hodd
    obtain ⟨hn, rfl⟩ := List.getElem?_eq_some_iff.1 hrow
    refine ⟨decide_eq_true hlength, n, by rwa [List.length_zipIdx], ?_, fun j hj ↦ ?_⟩
    · rw [List.getElem_zipIdx, Nat.zero_add]
    · simpa using hbefore j hj _ (List.getElem?_eq_getElem (hj.trans hn))

/-- Why rows are no board: the first one has no tiles, or there is a first one that is not as long
as it. -/
theorem ofRows_eq_error_iff {top : List Tile} (htop : rows.head? = some top) :
    ofRows rows = .error e ↔ top = [] ∧ e = .noTiles ∨
      top ≠ [] ∧ ∃ n row, oddRow? top.length rows = some (row, n) ∧
        e = .raggedRow n top.length row.length := by
  simp only [ofRows, htop, Option.getD_some, List.length_eq_zero_iff]
  split
  · rename_i hempty
    simp [hempty, eq_comm (a := e)]
  · rename_i hne
    split
    · rename_i row n hodd
      rw [htop, Option.getD_some] at hodd
      simp [hne, hodd, eq_comm (a := e)]
    · rename_i hodd
      rw [htop, Option.getD_some] at hodd
      simp [hne, hodd]

/-! ### Characters that stand for no tile -/

theorem exists_ofLetter?_iff : (∃ t, Tile.ofLetter? x = some t) ↔ x ∈ Tile.letters := by
  simp only [Tile.ofLetter?_eq_some_iff]
  constructor
  · intro hx
    obtain ⟨t, rfl⟩ := hx
    exact t.letter_mem_letters
  · exact Tile.exists_letter_eq

theorem exists_tilesOfLine_iff :
    (∃ tiles, tilesOfLine n line = .ok tiles) ↔ ∀ x ∈ line, x ∈ Tile.letters := by
  simp only [tilesOfLine_eq_ok_iff]
  exact Tile.forall_mem_letters_iff.symm

/-- A line is no row of tiles because of its first unknown character. -/
theorem tilesOfLine_eq_error_iff : tilesOfLine n line = .error e ↔ ∃ before x after,
    line = before ++ x :: after ∧ (∀ y ∈ before, y ∈ Tile.letters) ∧
      x ∉ Tile.letters ∧ e = .unknownTile n before.length x := by
  refine (Text.mapM_zipIdx_eq_error_iff (p := (· ∈ Tile.letters)) fun x c ↦ ?_).trans ?_
  · rw [← exists_ofLetter?_iff]
    dsimp only
    rcases Tile.ofLetter? x with - | t <;> simp
  · refine exists_congr fun before ↦ exists_congr fun x ↦ exists_congr fun after ↦
      and_congr_right fun _ ↦ and_congr_right fun _ ↦ ?_
    rw [← exists_ofLetter?_iff]
    dsimp only
    rcases Tile.ofLetter? x with - | t <;> simp [eq_comm (a := e)]

/-! ### Texts that are no board -/

/-- What is wrong with lines that draw no board. -/
inductive Misdrawn (lines : List (List Char)) : BoardFault → Prop where
  /-- The first character in reading order that stands for no tile. -/
  | unknownTile {r c : Nat} {x : Char} (here : charAt? lines ⟨r, c⟩ = some x)
    (unknown : x ∉ Tile.letters)
    (first : ∀ q : Position, q < ⟨r, c⟩ → ∀ y, charAt? lines q = some y → y ∈ Tile.letters) :
    Misdrawn lines (.unknownTile r c x)
  /-- All characters stand for tiles, but the first line has none. -/
  | noTiles (known : ∀ line ∈ lines, ∀ x ∈ line, x ∈ Tile.letters)
    (empty : lines.head? = some []) : Misdrawn lines .noTiles
  /-- All characters stand for tiles and the first line has some; the first line that is not as
  long. -/
  | raggedRow {n : Nat} {top line : List Char}
    (known : ∀ line ∈ lines, ∀ x ∈ line, x ∈ Tile.letters) (head : lines.head? = some top)
    (tiles : top ≠ []) (here : lines[n]? = some line) (odd : line.length ≠ top.length)
    (first : ∀ j < n, ∀ other, lines[j]? = some other → other.length = top.length) :
    Misdrawn lines (.raggedRow n top.length line.length)

/-- The first pass of the reading fails at the first unknown character. -/
theorem readTiles_eq_error_iff :
    (lines.zipIdx.mapM fun (line, row) ↦ tilesOfLine row line) = .error e ↔
      ∃ r c x, e = .unknownTile r c x ∧ Misdrawn lines (.unknownTile r c x) := by
  refine (Text.mapM_zipIdx_eq_error_iff fun line r ↦ exists_tilesOfLine_iff).trans ?_
  simp only [tilesOfLine_eq_error_iff]
  constructor
  · intro hfails
    obtain ⟨above, line, below, hlines, habove, before, x, after, rfl, hbefore, hx, rfl⟩ := hfails
    obtain ⟨hhere, hfirst⟩ := first_of_append hlines habove hbefore
    exact ⟨_, _, x, rfl, .unknownTile hhere hx hfirst⟩
  · intro hfault
    obtain ⟨r, c, x, rfl, hhere, hx, hfirst⟩ := hfault
    obtain ⟨above, before, after, below, hlines, rfl, rfl, habove, hbefore⟩ :=
      exists_append_of_first hhere hfirst
    exact ⟨above, _, below, hlines, habove, before, x, after, rfl, hbefore, hx, rfl⟩

theorem forall_length_map_iff {w : Nat} :
    (∀ j < n, ∀ other, (rows.map (List.map Tile.letter))[j]? = some other → other.length = w) ↔
      ∀ j < n, ∀ row, rows[j]? = some row → row.length = w := by
  simp only [List.getElem?_map, Option.map_eq_some_iff, forall_exists_index, and_imp,
    forall_apply_eq_imp_iff₂, List.length_map]

/-- The second pass, over the tiles of the lines, fails because of the lengths. -/
theorem ofRows_eq_error_iff_misdrawn (hne : rows ≠ []) :
    ofRows rows = .error e ↔ Misdrawn (rows.map (List.map Tile.letter)) e := by
  obtain ⟨top, rest, rfl⟩ := List.exists_cons_of_ne_nil hne
  have hknown := forall_mem_letters_map (top :: rest)
  rw [ofRows_eq_error_iff (List.head?_cons)]
  constructor
  · intro hfails
    rcases hfails with ⟨rfl, rfl⟩ | ⟨htop, n, row, hodd, rfl⟩
    · exact .noTiles hknown rfl
    · obtain ⟨hrow, hlength, hbefore⟩ := oddRow?_eq_some_iff.1 hodd
      have hhere : ((top :: rest).map (List.map Tile.letter))[n]? = some (row.map Tile.letter) := by
        rw [List.getElem?_map, hrow, Option.map_some]
      have htopLength : (top.map Tile.letter).length = top.length := List.length_map _
      have hrowLength : (row.map Tile.letter).length = row.length := List.length_map _
      rw [← htopLength, ← hrowLength] at hlength ⊢
      rw [← htopLength] at hbefore
      exact .raggedRow hknown rfl (mt List.map_eq_nil_iff.1 htop) hhere hlength
        (forall_length_map_iff.2 hbefore)
  · intro hfault
    rcases hfault with ⟨hhere, hx, -⟩ | ⟨-, hempty⟩ | ⟨-, hhead, htop, hhere, hlength, hbefore⟩
    case unknownTile =>
      obtain ⟨r, c, line, -, hline, hchar⟩ := charAt?_eq_some_iff.1 hhere
      exact absurd (hknown line (List.mem_of_getElem? hline) _ (List.mem_of_getElem? hchar)) hx
    case noTiles => exact Or.inl ⟨List.map_eq_nil_iff.1 (Option.some.inj hempty), rfl⟩
    case raggedRow n _ line =>
      obtain rfl := Option.some.inj hhead
      rw [List.getElem?_map] at hhere
      obtain ⟨row, hrow, rfl⟩ := Option.map_eq_some_iff.1 hhere
      have hbefore := forall_length_map_iff.1 hbefore
      rw [List.length_map, List.length_map] at hlength
      rw [List.length_map] at hbefore
      rw [List.length_map, List.length_map]
      exact Or.inr ⟨mt List.map_eq_nil_iff.2 htop, n, row,
        oddRow?_eq_some_iff.2 ⟨hrow, hlength, hbefore⟩, rfl⟩

/-- **Why a text is no board:** the reading fails with the fault of the lines. -/
theorem ofText_eq_error_iff :
    ofText text = .error e ↔ Misdrawn (text.toList.splitOn '\n') e := by
  have hne : text.toList.splitOn '\n' ≠ [] := List.splitOn_ne_nil _ _
  generalize hlines : text.toList.splitOn '\n' = lines at hne ⊢
  have hread : ofText text = .error e ↔
      (∃ r c x, e = .unknownTile r c x ∧ Misdrawn lines (.unknownTile r c x)) ∨
        ∃ rows, lines = rows.map (List.map Tile.letter) ∧ ofRows rows = .error e := by
    rw [← readTiles_eq_error_iff, ← hlines]
    refine Text.bind_eq_error_iff.trans (or_congr_right ?_)
    refine exists_congr fun rows ↦ and_congr_left fun _ ↦ ?_
    exact Text.mapM_zipIdx_eq_ok_iff fun _ _ _ ↦ tilesOfLine_eq_ok_iff
  rw [hread]
  constructor
  · intro hfails
    rcases hfails with ⟨r, c, x, rfl, hfault⟩ | ⟨rows, rfl, hrows⟩
    · exact hfault
    · exact (ofRows_eq_error_iff_misdrawn (mt List.map_eq_nil_iff.2 hne)).1 hrows
  · intro hfault
    by_cases hknown : ∀ line ∈ lines, ∀ x ∈ line, x ∈ Tile.letters
    · obtain ⟨rows, rfl⟩ := exists_map_letter_eq hknown
      have hrows := (ofRows_eq_error_iff_misdrawn (mt List.map_eq_nil_iff.2 hne)).2 hfault
      exact Or.inr ⟨rows, rfl, hrows⟩
    · -- the other two faults are faults of lines whose characters stand for tiles
      rcases hfault with ⟨hhere, hx, hfirst⟩ | ⟨hall, -⟩ | ⟨hall, -⟩
      case unknownTile r c x => exact Or.inl ⟨r, c, x, rfl, .unknownTile hhere hx hfirst⟩
      case noTiles => contradiction
      case raggedRow => contradiction

/-! ### Both results -/

/-- Lines are a drawing when the first has a character, all are equally long, and each character
stands for a tile. -/
theorem drawing_iff (hne : lines ≠ []) : Drawing lines ↔ lines.head? ≠ some [] ∧
    (∀ line ∈ lines, ∀ other ∈ lines, line.length = other.length) ∧
      ∀ line ∈ lines, ∀ x ∈ line, x ∈ Tile.letters := by
  obtain ⟨top, rest, rfl⟩ := List.exists_cons_of_ne_nil hne
  constructor
  · intro hdrawing
    obtain ⟨-, ⟨w, hpos, hwidth⟩, hletters⟩ := hdrawing
    refine ⟨fun hempty ↦ ?_, fun line hline other hother ↦ ?_, hletters⟩
    · have htop := hwidth top List.mem_cons_self
      rw [Option.some.inj hempty] at htop
      exact absurd htop hpos.ne
    · rw [hwidth line hline, hwidth other hother]
  · intro hshape
    obtain ⟨htop, hwidth, hletters⟩ := hshape
    refine ⟨hne, ⟨top.length, ?_, fun line hline ↦ hwidth line hline top List.mem_cons_self⟩,
      hletters⟩
    exact List.length_pos_iff.2 fun hempty ↦ htop (congrArg some hempty)

/-- **Texts are read as boards exactly.** With the lines of a text, of which there is always one:
the text is read exactly if the first line has a character, all lines have as many, and all stand
for tiles. On the board that is read each position has the color for whose letter its character
stands, and none at a blank and where there is no character; and the board contains the positions of
the characters, and no others. If the text is not read, the fault is the first unknown character in
reading order, or else that the first line is empty, or else the first line that is not as long as
it. -/
theorem ofText_exact (text : String) :
    ((∃ b, ofText text = .ok b) ↔ (text.toList.splitOn '\n').head? ≠ some [] ∧
      (∀ line ∈ text.toList.splitOn '\n', ∀ other ∈ text.toList.splitOn '\n',
        line.length = other.length) ∧
      ∀ line ∈ text.toList.splitOn '\n', ∀ x ∈ line, x ∈ Tile.letters) ∧
    (∀ b, ofText text = .ok b → ∀ p,
      b.colorAt p = (charAt? (text.toList.splitOn '\n') p).bind Color.ofLetter? ∧
        (b.Contains p ↔ ∃ x, charAt? (text.toList.splitOn '\n') p = some x)) ∧
    ∀ e, ofText text = .error e ↔ Misdrawn (text.toList.splitOn '\n') e := by
  refine ⟨?_, fun b hb p ↦ ?_, fun e ↦ ofText_eq_error_iff⟩
  · rw [exists_ofText_iff, drawing_iff (List.splitOn_ne_nil _ _)]
  · have hshows := shows_of_ofText hb
    exact ⟨hshows.colorAt_eq p, hshows.contains_iff p⟩

/-- Two tiles over a tile and a hole: the place after the first row is not the one at the start of
the second. Of a text with a row too long and an unknown character the character is the fault. -/
theorem ofText_exact_hole : (∃ b, ofText "RG\nB " = .ok b ∧ b.colorAt ⟨1, 0⟩ = some .blue ∧
      b.colorAt ⟨0, 2⟩ = none ∧ ¬ b.Contains ⟨0, 2⟩ ∧ b.colorAt ⟨1, 1⟩ = none ∧ b.Contains ⟨1, 1⟩ ∧
        ¬ b.Contains ⟨-1, 0⟩) ∧
    ofText "R\nGx" = .error (.unknownTile 1 1 'x') := by
  have hlines : "RG\nB ".toList.splitOn '\n' = [['R', 'G'], ['B', ' ']] := rfl
  obtain ⟨hread, hboard, -⟩ := ofText_exact "RG\nB "
  rw [hlines] at hread hboard
  obtain ⟨b, hb⟩ := hread.2 ⟨by decide, by decide,
    forall_mem_letters_map [[some .red, some .green], [some .blue, none]]⟩
  have hcolors := fun p ↦ (hboard b hb p).1
  have hcontains := fun p ↦ (hboard b hb p).2
  have hoff : ∀ p, charAt? [['R', 'G'], ['B', ' ']] p = none → ¬ b.Contains p := fun p hp hc ↦ by
    obtain ⟨x, hx⟩ := (hcontains p).1 hc
    rw [hp] at hx
    contradiction
  refine ⟨⟨b, hb, hcolors _, hcolors _, hoff _ rfl, hcolors _, (hcontains _).2 ⟨' ', rfl⟩,
    hoff _ rfl⟩, ?_⟩
  have hfault : Misdrawn ("R\nGx".toList.splitOn '\n') (.unknownTile 1 1 'x') := by
    have hlines : "R\nGx".toList.splitOn '\n' = [['R']] ++ (['G'] ++ 'x' :: []) :: [] := rfl
    obtain ⟨hhere, hfirst⟩ := first_of_append hlines (forall_mem_letters_map [[some .red]])
      (Tile.forall_mem_letters_iff.2 ⟨[some .green], rfl⟩)
    exact .unknownTile hhere (by decide) hfirst
  exact ((ofText_exact "R\nGx").2.2 _).2 hfault

end Board

end TileRobot
