import TileRobot.CommandLine.Help
import TileRobot.Level.Document
import TileRobot.Program.Parser
import TileRobot.Search.Report
/-!
# Carrying out commands

What the program answers to its arguments: an exit code, the lines for its output, and the lines it
says aside. The exit code tells whether the level was solved, was not solved, or could not be tried
because the input is no level or no program for it; wrong usage has the same code as an unsolved
level.

Files and the clock are parameters, in any monad. A file that cannot be read as text gives nothing.
-/

namespace TileRobot.CommandLine

/-- What the program answers. -/
structure Reply where
  /-- The exit code. -/
  code : UInt32
  /-- The lines for the output. -/
  output : List String
  /-- The lines that are said aside. -/
  aside : List String := []
deriving DecidableEq

namespace Reply

/-- The exit code after a level was solved, and after help. -/
def solvedCode : UInt32 := 0

/-- The exit code for input that is no level, or no program for the level. -/
def invalidCode : UInt32 := 1

/-- The exit code for a level that was not solved, and for wrong usage. -/
def unsolvedCode : UInt32 := 2

/-- The exit code for a run that was given up. -/
def unfinishedCode : UInt32 := 3

/-- The answer to input that is no level, or no program for the level. -/
def invalid (message : String) : Reply := ⟨invalidCode, [], [message]⟩

/-- The answer to wrong usage. -/
def misused (f : UsageFault) : Reply := ⟨unsolvedCode, [], ["error: " ++ f.message]⟩

/-- The answer when a run was given up. -/
def unfinished : Reply := ⟨unfinishedCode, [], ["the run was given up"]⟩

/-- The answer that shows a value, with the code for whether the level was solved. -/
def shown (solved : Bool) (v : Json.Value) : Reply :=
  ⟨if solved then solvedCode else unsolvedCode, v.spreadLines, []⟩

end Reply

/-- The challenge in the text of a file, or what is wrong with it. -/
def challengeOf (text? : Option String) : Except String Challenge :=
  match text? with
  | none => .error "cannot read level file"
  | some text =>
    match Level.read? text with
    | none => .error "invalid level JSON"
    | some level => level.challenge.mapError LevelFault.message

/-- How a program's run on a scene ends, with an account of it if `trace` is set. -/
def runOrTrace (fuel : Nat) (s : Scene) (p : Program) (trace : Bool) :
    Option (Machine.Ending × List String) :=
  if trace then (Machine.trace fuel s p).map fun t ↦ (t.halt.ending, t.lines)
  else (Machine.run fuel s p).map fun h ↦ (h.ending, [])

/-- The answer to the end of a program's run, with the lines that were said of it. -/
def replyToEnding (p : Program) (ending : Machine.Ending) (lines : List String) : Reply :=
  match ending with
  | .faulted f => .invalid f.message
  | .finished outcome =>
    { Reply.shown (outcome = .solved) (.ofFields [
        ("program", .ofString p.render),
        ("outcome", .ofString outcome.name)]) with
      aside := lines }

/-- The answer to a program on a challenge. -/
def replyToProgram (fuel : Nat) (challenge : Challenge) (text : String) (trace : Bool) : Reply :=
  match Program.read text with
  | .error f => .invalid f.message
  | .ok p =>
    match challenge.fault? p with
    | some f => .invalid f.message
    | none =>
      match runOrTrace fuel challenge.scene p trace with
      | none => .unfinished
      | some (ending, lines) => replyToEnding p ending lines

/-- The answer to the end of a search that took so many nanoseconds. -/
def replyToSearch (r : Except Search.Obstacle Search.Result) (nanoseconds : Nat) : Reply :=
  match r with
  | .ok result => .shown result.isFound (Search.Report.toJson ⟨result, nanoseconds⟩)
  | .error (.fault f) => .invalid f.message
  | .error .unfinished => .unfinished

/-- Carries out a search and answers with how it ended. The clock is read once more at the end. -/
@[specialize] def solve {m : Type → Type} [Monad m] (clock : Nat → m Nat) (fuel : Nat)
    (challenge : Challenge) (limits : Search.Limits) : m Reply := do
  let start ← clock 0
  let r ← Search.search clock fuel challenge limits
  let attempts := (r.toOption.map Search.Result.attempts).getD 0
  let stop ← clock (attempts / Search.checkInterval + 1)
  return replyToSearch r (stop - start)

/-- Carries out a command. -/
@[specialize] def perform {m : Type → Type} [Monad m] (textOf? : String → m (Option String))
    (clock : Nat → m Nat) (fuel : Nat) : Command → m Reply
  | .solve level limits => do
    match challengeOf (← textOf? level) with
    | .error message => return .invalid message
    | .ok challenge => solve clock fuel challenge limits
  | .run level program trace => do
    match challengeOf (← textOf? level) with
    | .error message => return .invalid message
    | .ok challenge => return replyToProgram fuel challenge program trace

/-- The answer of the program to its arguments. -/
@[specialize] def execute {m : Type → Type} [Monad m] (textOf? : String → m (Option String))
    (clock : Nat → m Nat) (fuel : Nat) (arguments : List String) : m Reply :=
  match Request.ofArguments arguments with
  | .error f => return .misused f
  | .ok (.help topic) => return ⟨Reply.solvedCode, topic.lines, []⟩
  | .ok .version => return ⟨Reply.solvedCode, versionLines, []⟩
  | .ok (.perform command) => perform textOf? clock fuel command

end TileRobot.CommandLine
