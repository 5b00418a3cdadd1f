import Mathlib.Algebra.Group.Int.Defs
import Mathlib.Algebra.Group.Nat.Defs
import Mathlib.Order.Nat
import TileRobot.Level.Basic
import TileRobot.Proofs.Machine.Invariant

/-!
# Runs on a level stay within the board

In the challenge of a level the robot and the goals stand on passable tiles of the board. A run can
only wear the scene down, so there they stay: the robot goes to passable tiles only, no goal comes
to the others, and painting neither makes a tile passable nor takes one away
(`Scene.Follows.confined`).

What follows for the numbers in which a run computes is a matter of the size of the board alone. A
robot on a board with fewer than `2 ^ 31` rows and columns has coordinates in 32 bits, and so has
the position ahead of it, one step beyond the edge at most (`Position.inWords_ahead`). A tile that
is looked at or painted lies in the array of tiles, the number of which has a place in 64 bits
(`Board.size_tiles_lt`).
-/

namespace TileRobot

/-! ### Numbers with a place -/

/-- Both coordinates have a place among the signed numbers of 32 bits. -/
structure Position.InWords (q : Position) : Prop where
  /-- The row is in range. -/
  row : -2 ^ 31 ≤ q.row ∧ q.row < 2 ^ 31
  /-- The column is in range. -/
  col : -2 ^ 31 ≤ q.col ∧ q.col < 2 ^ 31

section Board

variable {b : Board} {q : Position}

theorem Position.inWords_of_contains (hheight : b.height < 2 ^ 31) (hwidth : b.width < 2 ^ 31)
    (hq : b.Contains q) : q.InWords := by
  obtain ⟨⟨hrow, hrow'⟩, hcol, hcol'⟩ := hq
  exact ⟨⟨by omega, by omega⟩, by omega, by omega⟩

theorem Heading.offset_bounds (h : Heading) :
    (-1 ≤ h.offset.1 ∧ h.offset.1 ≤ 1) ∧ -1 ≤ h.offset.2 ∧ h.offset.2 ≤ 1 := by
  cases h <;> decide

/-- Going on from a position of the board, in whatever heading, leads to a row and a column that
have a place as well. -/
theorem Position.inWords_ahead (hheight : b.height < 2 ^ 31) (hwidth : b.width < 2 ^ 31)
    (hq : b.Contains q) (heading : Heading) : (q.ahead heading).InWords := by
  obtain ⟨⟨hrow, hrow'⟩, hcol, hcol'⟩ := hq
  obtain ⟨hsouth, heast⟩ := heading.offset_bounds
  constructor
  · show -2 ^ 31 ≤ q.row + heading.offset.1 ∧ q.row + heading.offset.1 < 2 ^ 31
    omega
  · show -2 ^ 31 ≤ q.col + heading.offset.2 ∧ q.col + heading.offset.2 < 2 ^ 31
    omega

theorem Board.size_tiles_lt (hheight : b.height < 2 ^ 31) (hwidth : b.width < 2 ^ 31) :
    b.tiles.size < 2 ^ 62 := by
  calc b.tiles.size
    _ = b.height * b.width := b.size_tiles
    _ < 2 ^ 31 * 2 ^ 31 := Nat.mul_lt_mul'' hheight hwidth

end Board

/-! ### Scenes -/

/-- A scene is confined to the board of another when the robot and the goals are on passable tiles
of that board, the board has not changed but for its colors, and all numbers that a step computes
have their places: the tiles of the positions on the board in the array of tiles, and the
coordinates of the robot and of the position ahead of it in 32 bits. -/
structure Scene.Confined (t s : Scene) : Prop where
  /-- The robot stands on a passable tile. -/
  robot : t.board.Passable t.robot.position
  /-- The goals left are on passable tiles. -/
  goals : ∀ q ∈ t.goals, t.board.Passable q
  /-- The number of columns is the same. -/
  width : t.board.width = s.board.width
  /-- The number of rows is the same. -/
  height : t.board.height = s.board.height
  /-- The passable tiles are the same. -/
  passable : ∀ q, t.board.Passable q ↔ s.board.Passable q
  /-- There is one tile for each column of each row. -/
  size : t.board.tiles.size = t.board.width * t.board.height
  /-- The number of tiles has a place in 64 bits. -/
  size_lt : t.board.tiles.size < 2 ^ 62
  /-- A tile that is looked at or painted lies in the array. -/
  place : ∀ q, t.board.Contains q → t.board.place q < t.board.tiles.size
  /-- The coordinates of the robot have a place in 32 bits. -/
  position : t.robot.position.InWords
  /-- Those of the position ahead of the robot have one, too. -/
  ahead : t.robot.ahead.InWords

/-- **A scene that comes after one with the robot and the goals on passable tiles is confined to its
board.** -/
theorem Scene.Follows.confined {t s : Scene} (hts : t.Follows s)
    (hrobot : s.board.Passable s.robot.position) (hgoals : ∀ q ∈ s.goals, s.board.Passable q)
    (hheight : s.board.height < 2 ^ 31) (hwidth : s.board.width < 2 ^ 31) : t.Confined s := by
  have hposition : s.board.Passable t.robot.position := by
    rcases hts.position with hstart | hpassable
    · rw [hstart]
      exact hrobot
    · exact hpassable
  have hrobot' := (hts.passable _).2 hposition
  rw [← hts.height] at hheight
  rw [← hts.width] at hwidth
  exact {
    robot := hrobot'
    goals := fun q hq ↦ (hts.passable q).2 (hgoals q (hts.goals.subset hq))
    width := hts.width
    height := hts.height
    passable := hts.passable
    size := t.board.size_tiles.trans (Nat.mul_comm _ _)
    size_lt := Board.size_tiles_lt hheight hwidth
    place := fun _ ↦ Board.place_lt_size
    position := Position.inWords_of_contains hheight hwidth hrobot'.contains
    ahead := Position.inWords_ahead hheight hwidth hrobot'.contains t.robot.heading }

/-! ### Runs -/

namespace Machine

/-- **Every run on a level stays confined to its board**, at every step that it makes and at its
end, if the board has fewer than `2 ^ 31` rows and columns. -/
theorem confined_of_challenge {l : Level} {c : Challenge} (hc : l.challenge = .ok c)
    (hheight : c.scene.board.height < 2 ^ 31) (hwidth : c.scene.board.width < 2 ^ 31)
    (p : Program) :
    (∀ n d, after? p (Config.start c.scene) n = some d → d.scene.Confined c.scene) ∧
      ∀ fuel h, run fuel c.scene p = some h → h.scene.Confined c.scene := by
  obtain ⟨hrobot, hgoals⟩ := Level.passable_of_challenge hc
  constructor
  · intro n d hn
    exact (follows_of_after? hn).confined hrobot hgoals hheight hwidth
  · intro fuel h hrun
    exact (follows_of_runFrom hrun).confined hrobot hgoals hheight hwidth

/-- Three blue tiles in a row, on the last of which there is a goal. -/
def corridor : Level := ⟨none, none, ["BBB"], ⟨⟨0, 0⟩, .east⟩, [⟨0, 2⟩], [3], [.red]⟩

/-- The challenge of the corridor. -/
def inCorridor : Challenge where
  scene := ⟨⟨3, 1, #[some .blue, some .blue, some .blue], rfl⟩, ⟨⟨0, 0⟩, .east⟩, .ofList [⟨0, 2⟩]⟩
  bounds := [3]
  paints := [.red]

/-- Goes one tile on, paints it and turns to the left. -/
def goAndPaint : Program :=
  ⟨[[some ⟨.forward, none⟩, some ⟨.paint .red, none⟩, some ⟨.left, none⟩]]⟩

/-- After three steps the robot stands in the middle of the corridor, on a tile that is now red, and
faces the edge of the board. -/
theorem confined_corridor : corridor.challenge = .ok inCorridor ∧
    (inCorridor.scene.board.height < 2 ^ 31 ∧ inCorridor.scene.board.width < 2 ^ 31) ∧
      ∃ d, after? goAndPaint (Config.start inCorridor.scene) 3 = some d ∧
        d.scene.robot = ⟨⟨0, 1⟩, .north⟩ ∧ d.scene.color = some .red ∧
          d.scene.Confined inCorridor.scene := by
  have hc : corridor.challenge = .ok inCorridor := rfl
  have hsize : inCorridor.scene.board.height < 2 ^ 31 ∧ inCorridor.scene.board.width < 2 ^ 31 := by
    decide
  obtain ⟨hconfined, -⟩ := confined_of_challenge hc hsize.1 hsize.2 goAndPaint
  exact ⟨hc, hsize, _, rfl, rfl, rfl, hconfined 3 _ rfl⟩

end Machine

end TileRobot
