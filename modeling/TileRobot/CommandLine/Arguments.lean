/-!
# Command line arguments

How the arguments after the name of a command are told apart. An argument that starts with two
hyphens names an option; its value follows an equality sign or is the next argument, which then must
not start with a hyphen. All other arguments are operands, and so are all arguments after a bare
pair of hyphens. Arguments are taken from left to right, and the first one that cannot be taken
stops the reading.

What the options and operands of a command are is for the command to say: it gives an `Intake`.

## Implementation notes

Taking arguments apart is no part of the solver, which only declares its commands and leaves the
rest to a library. It is assumed that the library takes arguments as they are taken here, and that
the help it shows is the one of `CommandLine.Help`; nothing here is about the code of the library.
What a person is told about a misuse is put in words of its own.
-/

namespace TileRobot.CommandLine

/-- Why arguments cannot be taken. -/
inductive UsageFault where
  /-- There is no command. -/
  | noCommand
  /-- There is no command of this name. -/
  | unknownCommand (name : String)
  /-- There is no option of this name, or no room for this operand. -/
  | unexpected (argument : String)
  /-- The option needs a value. -/
  | missingValue (option : String)
  /-- The option takes no value. -/
  | needlessValue (option : String)
  /-- The value does not suit the option or operand. -/
  | invalidValue (name value : String)
  /-- The option was given before. -/
  | repeated (option : String)
  /-- The operand is missing. -/
  | missingOperand (name : String)
deriving DecidableEq, Repr

/-- What a person is told about arguments that cannot be taken. -/
def UsageFault.message : UsageFault → String
  | noCommand => "a command is required"
  | unknownCommand name => s!"there is no command {name}"
  | unexpected argument => s!"unexpected argument {argument}"
  | missingValue option => s!"a value is required for {option}"
  | needlessValue option => s!"no value is allowed for {option}"
  | invalidValue name value => s!"invalid value {value} for {name}"
  | repeated option => s!"{option} cannot be used twice"
  | missingOperand name => s!"{name} is required"

/-- Why the reading of arguments stops early. -/
inductive Stop where
  /-- Help is asked for. -/
  | help
  /-- An argument cannot be taken. -/
  | fault (f : UsageFault)
deriving DecidableEq, Repr

/-- How the options and operands of a command change what is known of it. -/
structure Intake (α : Type) where
  /-- What becomes of the value of an option, if there is such an option. -/
  option? : String → Option (α → String → Except UsageFault α)
  /-- What becomes of an option without a value, if there is such an option. -/
  flag? : String → Option (α → Except UsageFault α)
  /-- What becomes of an operand. -/
  operand : α → String → Except UsageFault α

/-- A step of the reading, as a step that may also stop for help. -/
def liftFault {α : Type} (r : Except UsageFault α) : Except Stop α := r.mapError .fault

/-- Divides the text of an option after its hyphens into its name and its value, if it has one. -/
def splitOption (text : List Char) : String × Option String :=
  let name := String.ofList (text.takeWhile (· != '='))
  match text.dropWhile (· != '=') with
  | [] => (name, none)
  | _ :: value => (name, some (String.ofList value))

/-- Whether an argument may be the value of the option before it. -/
def isPlain (argument : String) : Bool :=
  match argument.toList with
  | '-' :: _ :: _ => false
  | _ => true

/-- Takes all arguments as operands. -/
def Intake.takeOperands {α : Type} (intake : Intake α) (a : α) (arguments : List String) :
    Except Stop α :=
  liftFault (arguments.foldlM intake.operand a)

/-- Takes all arguments. -/
def Intake.takeAll {α : Type} (intake : Intake α) (a : α) : List String → Except Stop α
  | [] => .ok a
  | argument :: rest =>
    match argument.toList with
    | ['-', '-'] => intake.takeOperands a rest
    | '-' :: '-' :: text =>
      let (name, value?) := splitOption text
      match intake.option? name, value? with
      | some take, some value => do intake.takeAll (← liftFault (take a value)) rest
      | some take, none =>
        match rest with
        | value :: rest =>
          if isPlain value then do intake.takeAll (← liftFault (take a value)) rest
          else .error (.fault (.missingValue argument))
        | [] => .error (.fault (.missingValue argument))
      | none, _ =>
        match intake.flag? name, value? with
        | some _, some _ => .error (.fault (.needlessValue name))
        | some take, none => do intake.takeAll (← liftFault (take a)) rest
        | none, none =>
          if name = "help" then .error .help else .error (.fault (.unexpected argument))
        | none, some _ => .error (.fault (.unexpected argument))
    | '-' :: 'h' :: _ => .error .help
    | '-' :: _ :: _ => .error (.fault (.unexpected argument))
    | _ => do intake.takeAll (← liftFault (intake.operand a argument)) rest

end TileRobot.CommandLine
