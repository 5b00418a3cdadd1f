import TileRobot.CommandLine.Arguments
import TileRobot.Search.Basic
import TileRobot.Text.Numeral
/-!
# Commands

The two commands, `solve` and `run`, with their options and operands, and the reading of them from
the arguments of the program. What is asked for may also be help or the version.
-/

namespace TileRobot.CommandLine

/-- Something to do with a level. -/
inductive Command where
  /-- Search for a program that solves the level in a file. -/
  | solve (level : String) (limits : Search.Limits)
  /-- Run a program on the level in a file, and show what happens if `trace` is set. -/
  | run (level program : String) (trace : Bool)

/-- A part of the help. -/
inductive Topic where
  /-- The commands. -/
  | commands
  /-- The command `solve`. -/
  | solve
  /-- The command `run`. -/
  | run
  /-- The help itself. -/
  | help
deriving DecidableEq, Repr

/-- What the arguments ask for. -/
inductive Request where
  /-- To carry out a command. -/
  | perform (command : Command)
  /-- To show help. -/
  | help (topic : Topic)
  /-- To show the version. -/
  | version

/-! ### The command `solve` -/

/-- What is known of a command `solve` while its arguments are read. -/
structure SolveDraft where
  /-- The file of the level. -/
  level? : Option String := none
  /-- The greatest number of failed attempts. -/
  attempts? : Option Nat := none
  /-- The greatest number of seconds. -/
  seconds? : Option Nat := none
  /-- The index to start from. -/
  start? : Option { n : Nat // n < indexLimit } := none

/-- Takes the file of a level; a file has a name. -/
def takeLevel (level? : Option String) (value : String) : Except UsageFault String :=
  match level? with
  | some _ => .error (.unexpected value)
  | none => if value.isEmpty then .error (.invalidValue "LEVEL" value) else .ok value

/-- A numeral below a limit. -/
def takeNumber (limit : Nat) (name value : String) : Except UsageFault { n : Nat // n < limit } :=
  match Text.readNat? limit value.toList with
  | some n => if h : n < limit then .ok ⟨n, h⟩ else .error (.invalidValue name value)
  | none => .error (.invalidValue name value)

/-- How the arguments of the command `solve` are taken. -/
def SolveDraft.intake : Intake SolveDraft where
  option? name :=
    match name with
    | "max-attempts" => some fun d value ↦ do
      let n ← takeNumber Text.limit64 name value
      if d.attempts?.isSome then throw (.repeated name)
      return { d with attempts? := some n.1 }
    | "timeout" => some fun d value ↦ do
      let n ← takeNumber Text.limit64 name value
      if d.seconds?.isSome then throw (.repeated name)
      return { d with seconds? := some n.1 }
    | "start-index" => some fun d value ↦ do
      let n ← takeNumber indexLimit name value
      if d.start?.isSome then throw (.repeated name)
      return { d with start? := some n }
    | _ => none
  flag? _ := none
  operand d value := do
    return { d with level? := some (← takeLevel d.level? value) }

/-- The command that the arguments after `solve` make up. -/
def readSolve (arguments : List String) : Except Stop Command := do
  let d ← SolveDraft.intake.takeAll {} arguments
  match d.level? with
  | none => throw (.fault (.missingOperand "LEVEL"))
  | some level =>
    let start := d.start?.getD ⟨0, by decide⟩
    return .solve level ⟨d.attempts?, d.seconds?, start.1, start.2⟩

/-! ### The command `run` -/

/-- What is known of a command `run` while its arguments are read. -/
structure RunDraft where
  /-- The file of the level. -/
  level? : Option String := none
  /-- The text of the program. -/
  program? : Option String := none
  /-- Whether to show what happens. -/
  trace : Bool := false

/-- How the arguments of the command `run` are taken. -/
def RunDraft.intake : Intake RunDraft where
  option? _ := none
  flag? name :=
    match name with
    | "trace" => some fun d ↦
      if d.trace then .error (.repeated name) else .ok { d with trace := true }
    | _ => none
  operand d value :=
    match d.level?, d.program? with
    | none, _ => do return { d with level? := some (← takeLevel none value) }
    | some _, none => .ok { d with program? := some value }
    | some _, some _ => .error (.unexpected value)

/-- The command that the arguments after `run` make up. -/
def readRun (arguments : List String) : Except Stop Command := do
  let d ← RunDraft.intake.takeAll {} arguments
  match d.level?, d.program? with
  | some level, some program => return .run level program d.trace
  | none, _ => throw (.fault (.missingOperand "LEVEL"))
  | some _, none => throw (.fault (.missingOperand "PROGRAM"))

/-! ### Requests -/

/-- A command as a request, with the topic on which it gives help. -/
def requestOf (topic : Topic) (r : Except Stop Command) : Except UsageFault Request :=
  match r with
  | .ok command => .ok (.perform command)
  | .error .help => .ok (.help topic)
  | .error (.fault f) => .error f

/-- The topic that the arguments after `help` name. -/
def readHelp (arguments : List String) : Except UsageFault Request :=
  match arguments with
  | [] => .ok (.help .commands)
  | ["solve"] => .ok (.help .solve)
  | ["run"] => .ok (.help .run)
  | ["help"] => .ok (.help .help)
  | name :: _ => .error (.unknownCommand name)

/-- What the arguments of the program ask for. -/
def Request.ofArguments (arguments : List String) : Except UsageFault Request :=
  match arguments with
  | [] => .error .noCommand
  | "solve" :: rest => requestOf .solve (readSolve rest)
  | "run" :: rest => requestOf .run (readRun rest)
  | "help" :: rest => readHelp rest
  | "--help" :: _ => .ok (.help .commands)
  | "--version" :: _ => .ok .version
  | name :: _ =>
    match name.toList with
    | '-' :: 'h' :: _ => .ok (.help .commands)
    | '-' :: 'V' :: _ => .ok .version
    | '-' :: _ :: _ => .error (.unexpected name)
    | _ => .error (.unknownCommand name)

end TileRobot.CommandLine
