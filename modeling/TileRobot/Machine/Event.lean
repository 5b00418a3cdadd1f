import TileRobot.Machine.Basic
import TileRobot.Program.Printer
/-!
# Events as text

Each event of a run has a line of text. Lines about frames name the routine by its number, counted
from one, and the slot by its index; lines about their effects are indented. A run that ends by the
rules closes with a line for its outcome.
-/

namespace TileRobot.Machine

/-- The name of a frame: the number of its routine and the index of its slot. -/
def Frame.render (f : Frame) : String := s!"F{routineNumber f.routine}[{f.slot}]"

/-- The line for an event. -/
def Event.render : Event → String
  | skipped frame i => s!"{frame.render} {i.render}: skipped"
  | taken frame i => s!"{frame.render} {i.render}"
  | painted position color => s!"  tile {position.render} -> {color.render}"
  | faced heading => s!"  facing {heading.name}"
  | moved position => s!"  moved to {position.render}"
  | collected left => s!"  goal collected, {left} left"

/-- The lines that close the account of a run: one for an outcome, none for a fault. -/
def Ending.lines : Ending → List String
  | finished outcome => [s!"outcome: {outcome.name}"]
  | faulted _ => []

end TileRobot.Machine
