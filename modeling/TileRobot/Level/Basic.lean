import TileRobot.Board.Text
import TileRobot.Challenge
import TileRobot.Text.Quoted
/-!
# Levels

A level is a challenge as it is written down: the board is a list of lines, and nothing says that
the robot and the goals stand on it. `Level.challenge` checks this and gives the challenge, or the
first fault found: in the board, then in the place of the robot, then in the goals in their order,
and last in the bounds.

## Main statements

* `Level.passable_of_challenge`: in the challenge of a level the robot and all goals stand on
  passable tiles.
-/

namespace TileRobot

/-- A challenge as it is written down. -/
structure Level where
  /-- The number of the level, if it has one. -/
  id? : Option Nat
  /-- The title of the level, if it has one. -/
  title? : Option String
  /-- The lines of the board, from north to south. -/
  board : List String
  /-- Where the robot starts. -/
  robot : Robot
  /-- The positions to visit. -/
  goals : List Position
  /-- The greatest number of slots of each routine. -/
  bounds : List Nat
  /-- The colors that may be painted. -/
  paints : List Color
deriving DecidableEq

/-- Why a level is no challenge. -/
inductive LevelFault where
  /-- The lines of the board are no board. -/
  | board (fault : BoardFault)
  /-- The robot starts where it cannot stand. -/
  | robot (position : Position)
  /-- A goal lies where no robot can stand. -/
  | goal (position : Position)
  /-- There is no routine. -/
  | noRoutines
deriving DecidableEq, Repr

/-- What a report says about rows or a text that are no board. -/
def BoardFault.message : BoardFault → String
  | noTiles => "board has no rows"
  | raggedRow row expected found =>
    s!"inconsistent row length: expected {expected}, but got {found} (row {row})"
  | unknownTile row col found =>
    s!"unknown cell character {Text.quoteChar found} at row {row}, column {col}"

/-- What a report says about a level that is no challenge. -/
def LevelFault.message : LevelFault → String
  | board fault => fault.message
  | robot p => s!"robot starts at {p.render} which is not a passable tile"
  | goal p => s!"goal at {p.render} is not on a passable tile"
  | noRoutines => "level declares no functions"

namespace Level

/-- The name of a level in reports: its number and title, as far as it has them. -/
def label (l : Level) : String :=
  match l.id?, l.title? with
  | some id, some title => s!"#{id} {title}"
  | some id, none => s!"#{id}"
  | none, some title => title
  | none, none => "untitled"

/-- The text of the board. -/
def boardText (l : Level) : String := "\n".intercalate l.board

/-- The challenge that a level writes down. -/
def challenge (l : Level) : Except LevelFault Challenge :=
  match Board.ofText l.boardText with
  | .error fault => .error (.board fault)
  | .ok board =>
    if ¬ board.Passable l.robot.position then .error (.robot l.robot.position)
    else
      match l.goals.find? fun p ↦ ¬ board.Passable p with
      | some p => .error (.goal p)
      | none =>
        if l.bounds.isEmpty then .error .noRoutines
        else .ok {
          scene := { board, robot := l.robot, goals := Goals.ofList l.goals }
          bounds := l.bounds
          paints := l.paints }

/-- In the challenge of a level the robot and all goals stand on passable tiles. -/
theorem passable_of_challenge {l : Level} {c : Challenge} (h : l.challenge = .ok c) :
    c.scene.board.Passable c.scene.robot.position ∧
      ∀ p ∈ c.scene.goals, c.scene.board.Passable p := by
  simp only [challenge] at h
  split at h
  · contradiction
  · split at h
    · contradiction
    · rename_i hrobot
      split at h
      · contradiction
      · rename_i hgoals
        split at h
        · contradiction
        · cases h
          refine ⟨Decidable.not_not.1 hrobot, fun p hp ↦ ?_⟩
          have := List.find?_eq_none.1 hgoals p (Goals.mem_ofList.1 hp)
          simpa using this

end Level

end TileRobot
