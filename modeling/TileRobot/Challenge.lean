import TileRobot.Scene
import TileRobot.Space.Basic
/-!
# Challenges

A challenge asks for a program that solves a scene: at most so many slots in each routine, and
painting only with the colors given.
-/

namespace TileRobot

/-- A scene to be solved, and what a program may use to solve it. -/
structure Challenge where
  /-- The scene in which a program starts. -/
  scene : Scene
  /-- The greatest number of slots of each routine. -/
  bounds : List Nat
  /-- The colors that may be painted. -/
  paints : List Color
deriving DecidableEq

namespace Challenge

/-- The number of routines. -/
def size (c : Challenge) : Nat := c.bounds.length

/-- The instructions that a program may use. -/
def repertoire (c : Challenge) : List Instruction := TileRobot.repertoire c.size c.paints

/-- The programs to choose from. -/
def space (c : Challenge) : Space := ⟨c.bounds, c.repertoire⟩

/-- The first fault of a program that was written for the challenge, if it has one. -/
def fault? (c : Challenge) (p : Program) : Option ProgramFault := p.fault? c.bounds

end Challenge

end TileRobot
