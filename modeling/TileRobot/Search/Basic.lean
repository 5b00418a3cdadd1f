import TileRobot.Challenge
import TileRobot.Machine.Run
/-!
# The search for a solution

The programs of a challenge are tried one after the other, in the order of their indices and from a
given one on, until one solves the scene or none is left. A limit on the failed attempts or on the
time stops the search before that; the limits are looked at after an attempt has failed, and the
time only after every 4096th.

A trial may need more steps than it is allowed. The search then stops without an answer, as it does
at a program that cannot be run.

## Implementation notes

The clock is a parameter: reading number `k` is asked for in any monad, so that a search can be run
against the clock of the system, or against a list of readings and then is a plain function. The
first reading is taken at the start, and reading `k` after `4096 * k` attempts.

Readings and the deadline, which is the first reading and the time allowed, are numbers of any size.
The clock of a system has a last reading. Where the deadline is beyond it the solver makes no search
at all, and nothing is claimed here of such limits.

The search moves a `Space.Cursor`, whose index is a number of any size. An odometer comes to the
same programs for as long as it can be moved on (`Space.exists_odometer?_inStep`), which is up to
the index `indexLimit - 1`.
-/

namespace TileRobot.Search

/-- How long a search may go on, and where it starts. -/
structure Limits where
  /-- The number of failed attempts after which the search stops. -/
  attempts? : Option Nat := none
  /-- The time in seconds after which the search stops. -/
  seconds? : Option Nat := none
  /-- The index of the first program to try. -/
  start : Nat := 0
  /-- The index is one that a cursor can be put at. -/
  start_lt : start < indexLimit := by decide

/-- How a search ends. -/
inductive Result where
  /-- A program solves the scene, after so many have failed. -/
  | found (program : Program) (attempts : Nat)
  /-- All programs have failed. -/
  | exhausted (attempts : Nat)
  /-- A limit was reached. The next program to try has the given index. -/
  | limitReached (attempts next : Nat)
deriving DecidableEq

/-- Why a search has no result. -/
inductive Obstacle where
  /-- A program could not be run. -/
  | fault (fault : ProgramFault)
  /-- A run did not come to its end in the number of steps allowed. -/
  | unfinished
deriving DecidableEq

namespace Result

/-- The number of programs that have failed. -/
def attempts : Result → Nat
  | found _ n => n
  | exhausted n => n
  | limitReached n _ => n

/-- The program that was found, if one was. -/
def program? : Result → Option Program
  | found p _ => some p
  | _ => none

/-- Whether a program was found. -/
def isFound : Result → Bool
  | found _ _ => true
  | _ => false

end Result

/-- Whether a program solves a scene. -/
def trial (fuel : Nat) (s : Scene) (p : Program) : Except Obstacle Bool :=
  match Machine.run fuel s p with
  | none => .error .unfinished
  | some ⟨.faulted fault, _⟩ => .error (.fault fault)
  | some ⟨.finished outcome, _⟩ => .ok (outcome = .solved)

/-- The number of attempts between two readings of the clock. -/
def checkInterval : Nat := 4096

/-- Whether the time has run out after so many attempts. The clock is read only at every
`checkInterval`-th of them, and only if there is a deadline. -/
@[specialize] def isLate {m : Type → Type} [Monad m] (clock : Nat → m Nat) (deadline? : Option Nat)
    (attempts : Nat) : m Bool :=
  match deadline? with
  | none => pure false
  | some deadline =>
    if attempts % checkInterval = 0 then
      return deadline < (← clock (attempts / checkInterval))
    else pure false

/-- The search from a cursor on, after so many failed attempts. -/
@[specialize] def searchFrom {m : Type → Type} [Monad m] (clock : Nat → m Nat) (fuel : Nat)
    (s : Scene) (limit? deadline? : Option Nat) (c : { c : Space.Cursor // c.Valid })
    (attempts : Nat) : m (Except Obstacle Result) :=
  match _h : c.1.current? with
  | none => return .ok (.exhausted attempts)
  | some p =>
    match trial fuel s p with
    | .error obstacle => return .error obstacle
    | .ok true => return .ok (.found p attempts)
    | .ok false =>
      let next := c.1.advance
      if limit?.any (· ≤ attempts + 1) then
        return .ok (.limitReached (attempts + 1) next.index)
      else do
        if ← isLate clock deadline? (attempts + 1) then
          return .ok (.limitReached (attempts + 1) next.index)
        else
          searchFrom clock fuel s limit? deadline? ⟨next, c.2.advance⟩ (attempts + 1)
termination_by c.1.remaining
decreasing_by
  refine Space.Cursor.remaining_advance_lt c.2 ?_
  simp only [Space.Cursor.current?, Option.map_eq_some_iff] at _h
  obtain ⟨ws, hws, -⟩ := _h
  simp [hws]

/-- Nanoseconds in a second. -/
def nanosecondsPerSecond : Nat := 1_000_000_000

/-- The search for a program that solves a challenge. The clock counts nanoseconds. -/
@[specialize] def search {m : Type → Type} [Monad m] (clock : Nat → m Nat) (fuel : Nat)
    (challenge : Challenge) (limits : Limits) : m (Except Obstacle Result) := do
  let start ← clock 0
  searchFrom clock fuel challenge.scene limits.attempts?
    (limits.seconds?.map (start + nanosecondsPerSecond * ·))
    ⟨challenge.space.cursor limits.start, Space.valid_cursor limits.start_lt⟩ 0

end TileRobot.Search
