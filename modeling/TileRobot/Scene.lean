import TileRobot.Board.Basic
import TileRobot.Goals
/-!
# Scenes

A scene is all that a program can observe or change: the board, the robot on it, and the goals that
are left. Scenes are plain values, so a run on one never affects another.
-/

namespace TileRobot

/-- A robot: where it stands and where it faces. -/
@[ext] structure Robot where
  /-- Where the robot stands. -/
  position : Position
  /-- Where the robot faces. -/
  heading : Heading
deriving DecidableEq, Repr

namespace Robot

/-- The position in front of the robot. -/
def ahead (r : Robot) : Position := r.position.ahead r.heading

end Robot

/-- The board, the robot and the goals left to visit. -/
@[ext] structure Scene where
  /-- The tiles, with their present colors. -/
  board : Board
  /-- The robot. -/
  robot : Robot
  /-- The positions left to visit. -/
  goals : Goals
deriving DecidableEq

namespace Scene

/-- The color under the robot, if it stands on a colored tile. -/
def color (s : Scene) : Option Color := s.board.colorAt s.robot.position

/-- The scene after the robot has turned by `n` quarter turns to the left. -/
def turn (s : Scene) (n : Int) : Scene :=
  { s with robot := { s.robot with heading := s.robot.heading.turn n } }

/-- The scene after painting the tile under the robot. -/
def repaint (s : Scene) (c : Color) : Scene :=
  { s with board := s.board.repaint s.robot.position c }

/-- The scene after the robot has gone to `p`, where it collects the goal if there is one. -/
def enter (s : Scene) (p : Position) : Scene :=
  { s with
    robot := { s.robot with position := p }
    goals := s.goals.erase p }

@[simp] theorem position_enter (s : Scene) (p : Position) :
    (s.enter p).robot.position = p := rfl

@[simp] theorem board_enter (s : Scene) (p : Position) : (s.enter p).board = s.board := rfl

@[simp] theorem goals_turn (s : Scene) (n : Int) : (s.turn n).goals = s.goals := rfl

@[simp] theorem goals_repaint (s : Scene) (c : Color) : (s.repaint c).goals = s.goals := rfl

end Scene

end TileRobot
