import TileRobot.Program.Basic
import TileRobot.Scene
/-!
# The machine that runs programs

A configuration is a scene and a stack of frames, a frame being the next slot to run in some
routine. One step takes the top frame, puts the frame of the slot after it in its place if there is
one, and carries out the instruction in the slot. A call adds the first frame of the called routine
on top, so the called routine is finished before the caller goes on.

The machine stops when a goal-free scene is reached, when the robot would leave the passable tiles,
when no frame is left, or at a call of a routine that does not exist. It has no notion of a loop:
that is added in the module on runs.

## Main statements

* `step_nil`, `step_of_isEmpty`, `step_cons`: the three cases of a step.
* `Step.events` of a step tell all that it changed; they are listed in the module on events.
-/

namespace TileRobot.Machine

/-- A slot to run next: the routine and the slot in it, by their indices. -/
@[ext] structure Frame where
  /-- The index of the routine. -/
  routine : Nat
  /-- The index of the slot. -/
  slot : Nat
deriving DecidableEq, Hashable, Repr

/-- How a run without a fault ends. -/
inductive Outcome where
  /-- No goal is left. -/
  | solved
  /-- The tile ahead of a robot that had to move on is not passable. -/
  | fellOff
  /-- No slot is left to run, but goals are. -/
  | exhausted
  /-- The run came back to where it had been. -/
  | loopDetected
deriving DecidableEq, Repr

/-- The name of an outcome as reports spell it. -/
def Outcome.name : Outcome → String
  | solved => "Solved"
  | fellOff => "FellOff"
  | exhausted => "Exhausted"
  | loopDetected => "LoopDetected"

/-- How a run ends: with an outcome, or with a fault of the program. -/
inductive Ending where
  /-- The run ended by the rules. -/
  | finished (outcome : Outcome)
  /-- The program asked for a routine that does not exist. -/
  | faulted (fault : ProgramFault)
deriving DecidableEq, Repr

/-- A scene together with the frames that are left to run, the next one first. -/
@[ext] structure Config where
  /-- The scene at this point of the run. -/
  scene : Scene
  /-- The frames left to run. -/
  stack : List Frame
deriving DecidableEq

/-- The configuration in which a run on a scene starts: at the first slot of the first routine. -/
def Config.start (s : Scene) : Config := ⟨s, [⟨0, 0⟩]⟩

/-- Something that happens in a step. -/
inductive Event where
  /-- The instruction of a frame was passed over because of its guard. -/
  | skipped (frame : Frame) (instruction : Instruction)
  /-- The instruction of a frame was taken up. -/
  | taken (frame : Frame) (instruction : Instruction)
  /-- The tile at a position changed its color. -/
  | painted (position : Position) (color : Color)
  /-- The robot turned. -/
  | faced (heading : Heading)
  /-- The robot moved. -/
  | moved (position : Position)
  /-- The robot collected a goal, after which so many were left. -/
  | collected (left : Nat)
deriving DecidableEq, Repr

/-- What one step comes to. -/
structure Step where
  /-- What happened, in order. -/
  events : List Event
  /-- The configuration after the step. -/
  next : Config
  /-- Whether a tile changed its color. -/
  repainted : Bool
  /-- How the run ends with this step, if it does. -/
  ending? : Option Ending
deriving DecidableEq

namespace Step

/-- A step after which the run goes on. -/
def proceed (events : List Event) (next : Config) : Step := ⟨events, next, false, none⟩

/-- A step with which the run ends. -/
def halt (events : List Event) (next : Config) (ending : Ending) : Step :=
  ⟨events, next, false, some ending⟩

/-- The step with a further event before the others. -/
def precede (e : Event) (s : Step) : Step := { s with events := e :: s.events }

@[simp] theorem next_precede (e : Event) (s : Step) : (s.precede e).next = s.next := rfl

@[simp] theorem repainted_precede (e : Event) (s : Step) :
    (s.precede e).repainted = s.repainted := rfl

@[simp] theorem ending?_precede (e : Event) (s : Step) : (s.precede e).ending? = s.ending? := rfl

@[simp] theorem events_precede (e : Event) (s : Step) : (s.precede e).events = e :: s.events := rfl

end Step

/-- The step in which the robot moves to the tile ahead, `stack` being what is left to run. -/
def moveAhead (s : Scene) (stack : List Frame) : Step :=
  let p := s.robot.ahead
  if s.board.Passable p then
    let after := s.enter p
    { events := .moved p :: if p ∈ s.goals then [.collected after.goals.size] else []
      next := ⟨after, stack⟩
      repainted := false
      ending? := if after.goals.isEmpty then some (.finished .solved) else none }
  else .halt [] ⟨s, stack⟩ (.finished .fellOff)

/-- The step in which the tile under the robot is painted, `stack` being what is left to run. -/
def paintTile (s : Scene) (stack : List Frame) (color : Color) : Step :=
  if s.board.Repaints s.robot.position color then
    { events := [.painted s.robot.position color]
      next := ⟨s.repaint color, stack⟩
      repainted := true
      ending? := none }
  else .proceed [] ⟨s, stack⟩

/-- The step in which the robot turns, `stack` being what is left to run. -/
def turnRobot (s : Scene) (stack : List Frame) (n : Int) : Step :=
  .proceed [.faced (s.turn n).robot.heading] ⟨s.turn n, stack⟩

/-- The step in which a routine is called in a program of `declared` routines, `stack` being what is
left to run after it. -/
def callRoutine (declared : Nat) (s : Scene) (stack : List Frame) (target : Nat) : Step :=
  if target < declared then .proceed [] ⟨s, ⟨target, 0⟩ :: stack⟩
  else .halt [] ⟨s, stack⟩ (.faulted (.undeclared target declared))

/-- The step in which an operation is carried out in a program of `declared` routines, `stack` being
what is left to run after it. -/
def perform (declared : Nat) (s : Scene) (stack : List Frame) : Operation → Step
  | .forward => moveAhead s stack
  | .left => turnRobot s stack 1
  | .right => turnRobot s stack (-1)
  | .paint color => paintTile s stack color
  | .call target => callRoutine declared s stack target

/-- The frames left to run after the frame on top of `below`, in a routine of `length` slots. -/
def resume (length : Nat) (frame : Frame) (below : List Frame) : List Frame :=
  if frame.slot + 1 < length then ⟨frame.routine, frame.slot + 1⟩ :: below else below

/-- The step in which the top frame is run, `below` being the frames under it. -/
def runFrame (p : Program) (s : Scene) (frame : Frame) (below : List Frame) : Step :=
  match p.routines[frame.routine]? with
  | none => .halt [] ⟨s, below⟩ (.faulted (.undeclared frame.routine p.size))
  | some routine =>
    let stack := resume routine.length frame below
    match routine.instruction? frame.slot with
    | none => .proceed [] ⟨s, stack⟩
    | some i =>
      if i.AppliesOn s.color then (perform p.size s stack i.operation).precede (.taken frame i)
      else .proceed [.skipped frame i] ⟨s, stack⟩

/-- One step of a program from a configuration. -/
def step (p : Program) (c : Config) : Step :=
  match c.stack with
  | [] => .halt [] c (.finished .exhausted)
  | frame :: below =>
    if c.scene.goals.isEmpty then .halt [] c (.finished .solved)
    else runFrame p c.scene frame below

theorem step_nil (p : Program) (s : Scene) :
    step p ⟨s, []⟩ = .halt [] ⟨s, []⟩ (.finished .exhausted) := rfl

theorem step_of_isEmpty {p : Program} {s : Scene} {frame : Frame} {below : List Frame}
    (h : s.goals.isEmpty = true) :
    step p ⟨s, frame :: below⟩ = .halt [] ⟨s, frame :: below⟩ (.finished .solved) := by
  simp [step, h]

theorem step_cons {p : Program} {s : Scene} {frame : Frame} {below : List Frame}
    (h : s.goals.isEmpty = false) :
    step p ⟨s, frame :: below⟩ = runFrame p s frame below := by
  simp [step, h]

/-! ### Configurations along a run -/

/-- The configuration after one step, unless the run ends with it. -/
def next? (p : Program) (c : Config) : Option Config :=
  match (step p c).ending? with
  | none => some (step p c).next
  | some _ => none

/-- The configuration after `n` steps, unless the run ends before. -/
def after? (p : Program) (c : Config) : Nat → Option Config
  | 0 => some c
  | n + 1 => (after? p c n).bind (next? p)

@[simp] theorem after?_zero (p : Program) (c : Config) : after? p c 0 = some c := rfl

theorem after?_succ (p : Program) (c : Config) (n : Nat) :
    after? p c (n + 1) = (after? p c n).bind (next? p) := rfl

theorem after?_add (p : Program) (c : Config) (m n : Nat) :
    after? p c (m + n) = (after? p c m).bind fun d ↦ after? p d n := by
  induction n with
  | zero => simp
  | succ n ih =>
    rw [← Nat.add_assoc, after?_succ, ih, Option.bind_assoc]
    rfl

end TileRobot.Machine
