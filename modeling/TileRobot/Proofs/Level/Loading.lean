import TileRobot.Level.Document
import TileRobot.Proofs.Board.Drawing
import TileRobot.Proofs.Json.Extent

/-!
# Which levels are challenges

A level is a challenge exactly if the rows of its board are a drawing, the robot and the goals stand
on colored tiles of it, and there is a routine (`Level.exists_challenge_iff`). The board of the
challenge then shows these rows (`Level.shows_rows`).

The rows of the board are not quite its lines. The lines are put together to one text before the
rows are read from it, so a line with a line feed in it is taken for several rows. With the lines in
place of the rows the two facts hold of a level as long as it is no challenge that has such a line
(`Level.challenge_lines_iff`).
-/

namespace TileRobot.Level

open Board (Drawing Shows ColoredIn)

variable {l : Level} {c : Challenge} {b : Board}

/-! ### Rows and lines -/

/-- The lines of the board as they are written down. -/
def lines (l : Level) : List (List Char) := l.board.map String.toList

/-- The rows of the board: a line falls into several where it has line feeds. -/
def rows (l : Level) : List (List Char) := l.lines.flatMap (·.splitOn '\n')

theorem rows_eq_lines (hl : ∀ line ∈ l.lines, '\n' ∉ line) : l.rows = l.lines := by
  have hline : ∀ line ∈ l.lines, line.splitOn '\n' = [line] := fun line hmem ↦
    List.splitOn_eq_singleton (hl line hmem)
  rw [rows, List.flatMap_congr hline, List.flatMap_singleton']

/-- The rows are what the text of the board falls into, if there is a line. -/
theorem splitOn_boardText (hl : l.board ≠ []) : l.boardText.toList.splitOn '\n' = l.rows := by
  rw [boardText, String.toList_intercalate]
  exact Text.splitOn_intercalate_eq_flatMap (mt List.map_eq_nil_iff.1 hl)

/-- Without a line the text of the board has one row, and neither it nor no row is a drawing. -/
theorem not_drawing_of_board_eq_nil (hl : l.board = []) :
    ¬ Drawing (l.boardText.toList.splitOn '\n') ∧ ¬ Drawing l.rows := by
  have htext : l.boardText.toList.splitOn '\n' = [[]] := by rw [boardText, hl]; rfl
  have hrows : l.rows = [] := by rw [rows, lines, hl]; rfl
  rw [htext, hrows]
  refine ⟨fun hdrawing ↦ ?_, fun hdrawing ↦ hdrawing.ne_nil rfl⟩
  obtain ⟨w, hpos, hwidth⟩ := hdrawing.width
  exact absurd (hwidth [] List.mem_cons_self) hpos.ne

theorem drawing_boardText_iff : Drawing (l.boardText.toList.splitOn '\n') ↔ Drawing l.rows := by
  by_cases hl : l.board = []
  · obtain ⟨htext, hrows⟩ := not_drawing_of_board_eq_nil hl
    exact iff_of_false htext hrows
  · rw [splitOn_boardText hl]

/-- The board that the text of a level draws shows its rows. -/
theorem shows_rows_of_ofText (hb : Board.ofText l.boardText = .ok b) : b.Shows l.rows := by
  have hl : l.board ≠ [] := fun hnil ↦
    (not_drawing_of_board_eq_nil hnil).1 (Board.exists_ofText_iff.1 ⟨b, hb⟩)
  exact splitOn_boardText hl ▸ Board.shows_of_ofText hb

/-! ### Well-formed levels -/

/-- A level is well formed, with rows of characters for its board, when these are a drawing with the
robot and the goals on colored tiles, and there is a routine. -/
structure WellFormed (l : Level) (rows : List (List Char)) : Prop where
  /-- The rows are a drawing. -/
  drawing : Drawing rows
  /-- The robot starts on a colored tile. -/
  robot : ColoredIn rows l.robot.position
  /-- All goals lie on colored tiles. -/
  goals : ∀ p ∈ l.goals, ColoredIn rows p
  /-- There is a routine. -/
  bounds : l.bounds ≠ []

/-- The challenge of a level, and when there is one. -/
theorem challenge_eq_ok_iff : l.challenge = .ok c ↔
    ∃ b, Board.ofText l.boardText = .ok b ∧ b.Passable l.robot.position ∧
      (∀ p ∈ l.goals, b.Passable p) ∧ l.bounds ≠ [] ∧
        c = ⟨⟨b, l.robot, Goals.ofList l.goals⟩, l.bounds, l.paints⟩ := by
  have hfault : ∀ f : LevelFault, (.error f : Except LevelFault Challenge) ≠ .ok c :=
    fun f ↦ by simp only [ne_eq, reduceCtorEq, not_false_eq_true]
  simp only [challenge]
  rcases Board.ofText l.boardText with e | b
  · simp only [reduceCtorEq, false_and, exists_false]
  simp only [Except.ok.injEq, exists_eq_left']
  split
  · rename_i hrobot
    exact iff_of_false (hfault _) fun h ↦ hrobot h.1
  rename_i hrobot
  rw [and_iff_right (Decidable.not_not.1 hrobot)]
  rcases hgoals : l.goals.find? fun p ↦ ¬ b.Passable p with - | p
  · have hall : ∀ p ∈ l.goals, b.Passable p := fun p hp ↦ by
      simpa using List.find?_eq_none.1 hgoals p hp
    rw [and_iff_right hall]
    by_cases hbounds : l.bounds = []
    · simp only [hbounds, List.isEmpty_nil, if_true]
      exact iff_of_false (hfault _) fun h ↦ h.1 rfl
    · simp only [List.isEmpty_iff, hbounds, if_false, Except.ok.injEq, ne_eq, not_false_eq_true,
        true_and]
      exact eq_comm
  · have hp := List.find?_some hgoals
    have hmem := List.mem_of_find?_eq_some hgoals
    exact iff_of_false (hfault _) fun h ↦ absurd (h.1 p hmem) (of_decide_eq_true hp)

/-- **A level is a challenge exactly if it is well formed** with the rows of its board. -/
theorem exists_challenge_iff : (∃ c, l.challenge = .ok c) ↔ l.WellFormed l.rows := by
  constructor
  · rintro ⟨c, hc⟩
    obtain ⟨b, hb, hrobot, hgoals, hbounds, -⟩ := challenge_eq_ok_iff.1 hc
    have hshows := shows_rows_of_ofText hb
    exact {
      drawing := drawing_boardText_iff.1 (Board.exists_ofText_iff.1 ⟨b, hb⟩)
      robot := (hshows.passable_iff _).1 hrobot
      goals := fun p hp ↦ (hshows.passable_iff p).1 (hgoals p hp)
      bounds := hbounds }
  · intro hl
    obtain ⟨b, hb⟩ := Board.exists_ofText_iff.2 (drawing_boardText_iff.2 hl.drawing)
    have hshows := shows_rows_of_ofText hb
    exact ⟨_, challenge_eq_ok_iff.2 ⟨b, hb, (hshows.passable_iff _).2 hl.robot,
      fun p hp ↦ (hshows.passable_iff p).2 (hl.goals p hp), hl.bounds, rfl⟩⟩

/-- **The board of the challenge shows the rows of the level.** -/
theorem shows_rows (hc : l.challenge = .ok c) : c.scene.board.Shows l.rows := by
  obtain ⟨b, hb, -, -, -, rfl⟩ := challenge_eq_ok_iff.1 hc
  exact shows_rows_of_ofText hb

/-! ### Documents -/

/-- A level has no more bounds than its text has characters. -/
theorem length_bounds_le {text : String} (hl : read? text = some l) :
    l.bounds.length ≤ text.length := by
  obtain ⟨v, hv, hl⟩ := Option.bind_eq_some_iff.1 hl
  obtain ⟨fields, hfields, hl⟩ := Option.bind_eq_some_iff.1 hl
  split at hl
  · rename_i id title board robot goals bounds paints
    have hbounded := (Json.bounded_of_read? hv).of_mem_asRecord? hfields (w := bounds) (by simp)
    simp only [Option.bind_eq_bind, Option.bind_eq_some_iff] at hl
    obtain ⟨_, -, _, -, _, -, _, -, _, -, bounds', hbounds, _, -, hl⟩ := hl
    obtain rfl := Option.some.inj hl
    exact hbounded.length_le_of_asList? hbounds
  · contradiction

/-! ### One row for each line -/

/-- No line of a drawing has a line feed. -/
theorem notMem_of_drawing (hl : Drawing l.lines) : ∀ line ∈ l.lines, '\n' ∉ line :=
  fun line hmem hx ↦ absurd (hl.letters line hmem _ hx) (by decide)

/-- **When the lines of a level are its rows.** That a level is a challenge exactly if it is well
formed with its lines, one for each row, and that the board of the challenge then shows them: this
holds of a level exactly if it is no challenge or has no line with a line feed. -/
theorem challenge_lines_iff (l : Level) :
    (((∃ c, l.challenge = .ok c) ↔ l.WellFormed l.lines) ∧
        ∀ c, l.challenge = .ok c → c.scene.board.Shows l.lines) ↔
      ((∃ c, l.challenge = .ok c) → ∀ line ∈ l.lines, '\n' ∉ line) := by
  constructor
  · rintro ⟨hiff, -⟩ hc
    exact notMem_of_drawing (hiff.1 hc).drawing
  · intro hlines
    refine ⟨⟨fun hc ↦ ?_, fun hl ↦ ?_⟩, fun c hc ↦ ?_⟩
    · exact rows_eq_lines (hlines hc) ▸ exists_challenge_iff.1 hc
    · exact exists_challenge_iff.2 ((rows_eq_lines (notMem_of_drawing hl.drawing)).symm ▸ hl)
    · exact rows_eq_lines (hlines ⟨c, hc⟩) ▸ shows_rows hc

/-- A red tile over a blue one, written as one line with a line feed. -/
def brokenLine : Level := ⟨none, none, ["R\nB"], ⟨⟨0, 0⟩, .north⟩, [], [1], []⟩

/-- The level with the broken line is a challenge, with a board of two rows. -/
theorem challenge_brokenLine : (∃ c, brokenLine.challenge = .ok c ∧ c.scene.board.height = 2) ∧
    ¬ brokenLine.WellFormed brokenLine.lines := by
  have hrows : brokenLine.rows = [['R'], ['B']] := rfl
  have hformed : brokenLine.WellFormed brokenLine.rows := by
    rw [hrows]
    exact {
      drawing := ⟨List.cons_ne_nil _ _, ⟨1, Nat.one_pos, by decide⟩, by simp [Tile.letters]⟩
      robot := ⟨0, 0, .red, rfl, rfl⟩
      goals := nofun
      bounds := List.cons_ne_nil _ _ }
  obtain ⟨c, hc⟩ := exists_challenge_iff.2 hformed
  refine ⟨⟨c, hc, (shows_rows hc).height.trans (congrArg List.length hrows)⟩, fun hl ↦ ?_⟩
  exact notMem_of_drawing hl.drawing _ List.mem_cons_self (by decide)

end TileRobot.Level
