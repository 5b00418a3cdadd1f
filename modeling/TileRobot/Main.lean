import TileRobot.CommandLine.Execute
/-!
# The program

The outer layer: files, the clock and the two outputs.
-/

namespace TileRobot

/-- The text of a file, if there is a file of that name and it holds text. -/
def readText? (name : String) : IO (Option String) := do
  match ← (IO.FS.readFile name).toBaseIO with
  | .ok text => return some text
  | .error _ => return none

/-- A number of steps that no run comes near to. -/
def ampleSteps : Nat := 0x4000_0000_0000_0000

end TileRobot

/-- Carries out what the arguments ask for. -/
def main (arguments : List String) : IO UInt32 := do
  let reply ← TileRobot.CommandLine.execute TileRobot.readText? (fun _ ↦ IO.monoNanosNow)
    TileRobot.ampleSteps arguments
  reply.aside.forM fun line ↦ IO.eprintln line
  reply.output.forM fun line ↦ IO.println line
  return reply.code
