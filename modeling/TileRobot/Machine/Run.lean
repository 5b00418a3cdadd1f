import Std.Data.HashSet
import TileRobot.Machine.Event
/-!
# Runs

A run repeats the step of the machine until it ends. Since the machine may go on for ever, a run
takes the number of steps it may make and gives no answer when they do not suffice; a larger number
never changes an answer (`runFrom_of_le`).

A run also watches for loops. Before each step it takes down where the robot stands, where it faces
and what the top frame is, and it stops when it has taken down the same before. A step that changes
the color of a tile makes all that was taken down void, its own entry included.

## Main statements

* `halt_traceFrom`: keeping an account of the events does not change how a run ends.
* `runFrom_of_le`: an answer stays the same when more steps are allowed.
-/

namespace TileRobot.Machine

/-- What a run takes down before a step. -/
@[ext] structure Fingerprint where
  /-- Where the robot stands. -/
  position : Position
  /-- Where the robot faces. -/
  heading : Heading
  /-- The frame to be run. -/
  frame : Frame
deriving DecidableEq, Hashable, Repr

/-- What is taken down in a configuration; nothing when there is no frame or no goal left. -/
def Config.fingerprint? (c : Config) : Option Fingerprint :=
  match c.stack with
  | [] => none
  | frame :: _ =>
    if c.scene.goals.isEmpty then none
    else some ⟨c.scene.robot.position, c.scene.robot.heading, frame⟩

/-- The fingerprints taken down since a tile last changed its color. -/
abbrev Evidence := Std.HashSet Fingerprint

namespace Evidence

/-- A configuration repeats when its fingerprint has been taken down. -/
def Repeats (seen : Evidence) (c : Config) : Prop :=
  ∃ f ∈ c.fingerprint?, f ∈ seen

instance (seen : Evidence) (c : Config) : Decidable (Repeats seen c) :=
  match h : c.fingerprint? with
  | none => isFalse fun ⟨_, hf, _⟩ ↦ by simp [h] at hf
  | some f =>
    if hm : f ∈ seen then isTrue ⟨f, h, hm⟩
    else isFalse fun ⟨g, hg, hgm⟩ ↦ by
      rw [h, Option.mem_def, Option.some.injEq] at hg
      exact hm (hg ▸ hgm)

/-- Without evidence nothing repeats. -/
theorem not_repeats_empty (c : Config) : ¬ Repeats ∅ c := by
  rintro ⟨f, -, hf⟩
  simp at hf

/-- Without a frame to be run nothing repeats. -/
theorem not_repeats_nil (seen : Evidence) (s : Scene) : ¬ seen.Repeats ⟨s, []⟩ := by
  rintro ⟨f, hf, -⟩
  contradiction

/-- The evidence after a step from a configuration. -/
def update (seen : Evidence) (c : Config) (repainted : Bool) : Evidence :=
  if repainted then ∅
  else
    match c.fingerprint? with
    | none => seen
    | some f => seen.insert f

theorem mem_update {seen : Evidence} {c : Config} {repainted : Bool} {f : Fingerprint} :
    f ∈ seen.update c repainted ↔ repainted = false ∧ (c.fingerprint? = some f ∨ f ∈ seen) := by
  cases repainted with
  | true => simp [update]
  | false =>
    cases h : c.fingerprint? with
    | none => simp [update, h]
    | some g => simp [update, h]

end Evidence

/-- Where and how a run ended. -/
structure Halt where
  /-- How the run ended. -/
  ending : Ending
  /-- The scene at the end. -/
  scene : Scene
deriving DecidableEq

/-- The end of a run from a configuration, with the evidence at hand and within a number of
steps. -/
def runFrom (p : Program) : Nat → Evidence → Config → Option Halt
  | 0, _, _ => none
  | fuel + 1, seen, c =>
    if seen.Repeats c then some ⟨.finished .loopDetected, c.scene⟩
    else
      let s := step p c
      match s.ending? with
      | some ending => some ⟨ending, s.next.scene⟩
      | none => runFrom p fuel (seen.update c s.repainted) s.next

/-- The end of a program's run on a scene, within a number of steps. -/
def run (fuel : Nat) (s : Scene) (p : Program) : Option Halt :=
  runFrom p fuel ∅ (Config.start s)

/-- A run ends in a given way when some number of steps suffices for it. -/
def EndsWith (s : Scene) (p : Program) (e : Ending) : Prop :=
  ∃ fuel h, run fuel s p = some h ∧ h.ending = e

/-- Whether a program solves a scene, within a number of steps. -/
def solves? (fuel : Nat) (s : Scene) (p : Program) : Option Bool :=
  (run fuel s p).map fun h ↦ h.ending = .finished .solved

theorem runFrom_of_repeats {p : Program} {fuel : Nat} {seen : Evidence} {c : Config}
    (h : seen.Repeats c) :
    runFrom p (fuel + 1) seen c = some ⟨.finished .loopDetected, c.scene⟩ := by
  simp [runFrom, h]

theorem runFrom_of_ending {p : Program} {fuel : Nat} {seen : Evidence} {c : Config} {e : Ending}
    (h : ¬ seen.Repeats c) (he : (step p c).ending? = some e) :
    runFrom p (fuel + 1) seen c = some ⟨e, (step p c).next.scene⟩ := by
  simp [runFrom, h, he]

theorem runFrom_of_proceed {p : Program} {fuel : Nat} {seen : Evidence} {c : Config}
    (h : ¬ seen.Repeats c) (he : (step p c).ending? = none) :
    runFrom p (fuel + 1) seen c
      = runFrom p fuel (seen.update c (step p c).repainted) (step p c).next := by
  simp [runFrom, h, he]

/-! ### The number of steps -/

theorem runFrom_of_le {p : Program} {m n : Nat} {seen : Evidence} {c : Config} {h : Halt}
    (hmn : m ≤ n) (hm : runFrom p m seen c = some h) : runFrom p n seen c = some h := by
  induction m generalizing n seen c with
  | zero => simp [runFrom] at hm
  | succ m ih =>
    obtain ⟨k, rfl⟩ : ∃ k, n = k + 1 := ⟨n - 1, by omega⟩
    by_cases hrep : seen.Repeats c
    · rw [runFrom_of_repeats hrep] at hm ⊢
      exact hm
    · cases he : (step p c).ending? with
      | some e =>
        rw [runFrom_of_ending hrep he] at hm ⊢
        exact hm
      | none =>
        rw [runFrom_of_proceed hrep he] at hm ⊢
        exact ih (by omega) hm

/-- Two runs that both give an answer give the same. -/
theorem run_unique {m n : Nat} {s : Scene} {p : Program} {h k : Halt} (hm : run m s p = some h)
    (hn : run n s p = some k) : h = k := by
  have h₁ := runFrom_of_le (Nat.le_max_left m n) hm
  have h₂ := runFrom_of_le (Nat.le_max_right m n) hn
  exact Option.some.inj (h₁.symm.trans h₂)

/-! ### Keeping an account -/

/-- A run together with all that happened in it. -/
structure Trace where
  /-- What happened, in order. -/
  events : List Event
  /-- Where and how the run ended. -/
  halt : Halt
deriving DecidableEq

/-- The account of a run from a configuration, `log` being what happened before. -/
def traceFrom (p : Program) : Nat → Array Event → Evidence → Config → Option Trace
  | 0, _, _, _ => none
  | fuel + 1, log, seen, c =>
    if seen.Repeats c then some ⟨log.toList, .finished .loopDetected, c.scene⟩
    else
      let s := step p c
      let log := log ++ s.events
      match s.ending? with
      | some ending => some ⟨log.toList, ending, s.next.scene⟩
      | none => traceFrom p fuel log (seen.update c s.repainted) s.next

/-- The account of a program's run on a scene, within a number of steps. -/
def trace (fuel : Nat) (s : Scene) (p : Program) : Option Trace :=
  traceFrom p fuel #[] ∅ (Config.start s)

/-- The lines of an account. -/
def Trace.lines (t : Trace) : List String :=
  t.events.map Event.render ++ t.halt.ending.lines

theorem halt_traceFrom (p : Program) (fuel : Nat) (log : Array Event) (seen : Evidence)
    (c : Config) : (traceFrom p fuel log seen c).map Trace.halt = runFrom p fuel seen c := by
  induction fuel generalizing log seen c with
  | zero => rfl
  | succ fuel ih =>
    simp only [traceFrom, runFrom]
    split
    · rfl
    · split
      · rfl
      · exact ih _ _ _

end TileRobot.Machine
