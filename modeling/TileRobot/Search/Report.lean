import TileRobot.Json.Writer
import TileRobot.Program.Printer
import TileRobot.Search.Basic
/-!
# Reports on searches

A report is a record of how a search ended: its status, the number of failed attempts, the program
if one was found, the index to go on from if a limit was reached, and the time taken. Indices are
written as strings, since they may be greater than the numbers of JSON can safely be; the time is
written in whole milliseconds, modulo two to the power of 64.
-/

namespace TileRobot.Search

/-- How a search ended, and how long it took. -/
structure Report where
  /-- How the search ended. -/
  result : Result
  /-- The time taken, in nanoseconds. -/
  nanoseconds : Nat

namespace Report

/-- The name of the way in which a search ended. -/
def status (r : Report) : String :=
  match r.result with
  | .found _ _ => "found"
  | .exhausted _ => "exhausted"
  | .limitReached _ _ => "limit_reached"

/-- The time taken in whole milliseconds, as far as 64 bits hold it. -/
def milliseconds (r : Report) : Nat := r.nanoseconds / 1_000_000 % Text.limit64

/-- The fields that only some reports have. -/
def detail (r : Report) : List (String × Json.Value) :=
  match r.result with
  | .found p _ => [("program", .ofString p.render)]
  | .exhausted _ => []
  | .limitReached _ next => [("nextIndex", .ofString (toString next))]

/-- The record of a report. -/
def toJson (r : Report) : Json.Value :=
  .ofFields ([("status", .ofString r.status), ("attempts", .integer r.result.attempts)]
    ++ r.detail ++ [("timeElapsedMs", .integer r.milliseconds)])

end Report

end TileRobot.Search
