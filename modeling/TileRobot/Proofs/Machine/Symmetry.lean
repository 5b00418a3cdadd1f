import Mathlib.Logic.Equiv.Defs
import TileRobot.Proofs.Machine.LockStep

/-!
# Symmetries of the machine

The machine knows positions, headings, colors and routines only by what they have to do with each
other: which position is ahead of which, which heading is to the left of which, which color lies
where, and which routine comes first. A symmetry gives other names to all of them and keeps these
relations, up to an exchange of left and right (`Symmetry`). A scene and a program in the new names
are as good as the old ones: the two machines are in lock step (`Symmetry.OnProgram.lockStep`), and
so a run ends in the same way after as many steps (`Symmetry.map_ending_run`).
-/

namespace TileRobot

/-- A motion of the grid: positions and headings are moved such that the tile ahead stays ahead.
If it mirrors the grid, left and right are exchanged. -/
structure Motion where
  /-- Where a position is moved to. -/
  position : Equiv.Perm Position
  /-- What a heading is turned to. -/
  heading : Equiv.Perm Heading
  /-- Whether left and right are exchanged. -/
  mirrors : Bool
  /-- The tile ahead stays ahead. -/
  ahead : ∀ q h, position (q.ahead h) = (position q).ahead (heading h)
  /-- What was to the left is to the left, or to the right if the grid is mirrored. -/
  left : ∀ h, heading h.left = if mirrors then (heading h).right else (heading h).left

/-- A symmetry: a motion of the grid with other names for the colors and the routines, of which the
first keeps its name. -/
structure Symmetry extends Motion where
  /-- The name of a color. -/
  color : Equiv.Perm Color
  /-- The index of a routine. -/
  routine : Equiv.Perm Nat
  /-- The first routine stays the first. -/
  routine_zero : routine 0 = 0

namespace Symmetry

open Machine

variable (σ : Symmetry) {p p' : Program} {s s' t : Scene}

theorem heading_right (h : Heading) :
    σ.heading h.right = if σ.mirrors then (σ.heading h).left else (σ.heading h).right := by
  have hleft := σ.left h.right
  rw [Heading.right_left] at hleft
  rcases hm : σ.mirrors with - | -
  · rw [hm, if_neg Bool.false_ne_true] at hleft
    rw [hleft, Heading.left_right, if_neg Bool.false_ne_true]
  · rw [hm, if_pos rfl] at hleft
    rw [hleft, Heading.right_left, if_pos rfl]

/-! ### Other names -/

/-- An operation in other names. -/
def onOperation : Operation → Operation
  | .forward => .forward
  | .left => if σ.mirrors then .right else .left
  | .right => if σ.mirrors then .left else .right
  | .paint c => .paint (σ.color c)
  | .call target => .call (σ.routine target)

/-- An instruction in other names. -/
def onInstruction (i : Instruction) : Instruction :=
  ⟨σ.onOperation i.operation, i.guard.map σ.color⟩

/-- A routine in other names. -/
def onRoutine (r : Routine) : Routine := r.map (Option.map σ.onInstruction)

/-- A frame in other names. -/
def onFrame (frame : Frame) : Frame := ⟨σ.routine frame.routine, frame.slot⟩

/-- A fingerprint in other names. -/
def onFingerprint (f : Fingerprint) : Fingerprint :=
  ⟨σ.position f.position, σ.heading f.heading, σ.onFrame f.frame⟩

theorem onFingerprint_injective : Function.Injective σ.onFingerprint := by
  intro f g hfg
  obtain ⟨position, heading, routine, slot⟩ := f
  obtain ⟨position', heading', routine', slot'⟩ := g
  simpa [onFingerprint, onFrame] using hfg

@[simp] theorem length_onRoutine (r : Routine) : (σ.onRoutine r).length = r.length :=
  List.length_map _

theorem instruction?_onRoutine (r : Routine) (k : Nat) :
    (σ.onRoutine r).instruction? k = (r.instruction? k).map σ.onInstruction := by
  rw [onRoutine, Routine.instruction?, Routine.instruction?, List.getElem?_map]
  rcases r[k]? with - | slot <;> rfl

theorem instruction?_onRoutine_eq_some {r : Routine} {k : Nat} {i : Instruction}
    (hi : r.instruction? k = some i) :
    (σ.onRoutine r).instruction? k = some (σ.onInstruction i) := by
  rw [instruction?_onRoutine, hi, Option.map_some]

theorem map_resume (length : Nat) (frame : Frame) (below : List Frame) :
    (resume length frame below).map σ.onFrame =
      resume length (σ.onFrame frame) (below.map σ.onFrame) := by
  simp only [resume]
  split
  · rename_i hlt
    rw [if_pos (show (σ.onFrame frame).slot + 1 < length from hlt)]
    rfl
  · rename_i hge
    rw [if_neg (show ¬ (σ.onFrame frame).slot + 1 < length from hge)]

/-- The program `p'` is `p` in other names. Indices without a routine keep their names. -/
structure OnProgram (p p' : Program) : Prop where
  /-- There are as many routines. -/
  size : p'.size = p.size
  /-- Each routine is there in other names, under its new index. -/
  routine : ∀ k, p'.routines[σ.routine k]? = p.routines[k]?.map σ.onRoutine
  /-- Indices without a routine keep their names. -/
  undeclared : ∀ k, p.size ≤ k → σ.routine k = k

/-- The scene `s'` is `s` in other names. -/
structure OnScene (s s' : Scene) : Prop where
  /-- The color at each position. -/
  colorAt : ∀ q, s'.board.colorAt (σ.position q) = (s.board.colorAt q).map σ.color
  /-- The robot. -/
  robot : s'.robot = ⟨σ.position s.robot.position, σ.heading s.robot.heading⟩
  /-- The goals. -/
  goals : ∀ q, σ.position q ∈ s'.goals ↔ q ∈ s.goals

/-- The configuration `c'` is `c` in other names. -/
structure OnConfig (c c' : Config) : Prop where
  /-- The scene. -/
  scene : σ.OnScene c.scene c'.scene
  /-- The frames left to run. -/
  stack : c'.stack = c.stack.map σ.onFrame

variable {σ}

/-- Calls of declared routines stay such, and calls of others, too. -/
theorem OnProgram.routine_lt_iff (hp : σ.OnProgram p p') {k : Nat} :
    σ.routine k < p.size ↔ k < p.size := by
  constructor
  · intro hlt
    by_contra hge
    rw [hp.undeclared k (Nat.le_of_not_lt hge)] at hlt
    exact hge hlt
  · intro hlt
    by_contra hge
    have hfix := hp.undeclared (σ.routine k) (Nat.le_of_not_lt hge)
    rw [σ.routine.injective hfix] at hge
    exact hge hlt

/-! ### Scenes -/

namespace OnScene

variable (hs : σ.OnScene s s')
include hs

theorem passable_iff (q : Position) :
    s'.board.Passable (σ.position q) ↔ s.board.Passable q := by
  rw [Board.Passable, Board.Passable, hs.colorAt, Option.isSome_map]

theorem isEmpty_goals : s'.goals.isEmpty = s.goals.isEmpty := by
  rw [Bool.eq_iff_iff, Goals.isEmpty_iff, Goals.isEmpty_iff, ← σ.position.forall_congr_right]
  exact forall_congr' fun q ↦ not_congr (hs.goals q)

theorem ahead_eq : s'.robot.ahead = σ.position s.robot.ahead := by
  rw [hs.robot]
  exact (σ.ahead _ _).symm

theorem color_eq : s'.color = s.color.map σ.color := by
  rw [Scene.color, hs.robot]
  exact hs.colorAt _

theorem repaints_iff (c : Color) : s'.board.Repaints s'.robot.position (σ.color c) ↔
    s.board.Repaints s.robot.position c := by
  rw [Board.Repaints, Board.Repaints, hs.robot, hs.passable_iff, hs.colorAt]
  refine and_congr_right fun _ ↦ not_congr ?_
  exact (Option.map_injective σ.color.injective).eq_iff' rfl

theorem enter (q : Position) : σ.OnScene (s.enter q) (s'.enter (σ.position q)) where
  colorAt := hs.colorAt
  robot := by
    show Robot.mk (σ.position q) s'.robot.heading = ⟨σ.position q, σ.heading s.robot.heading⟩
    rw [hs.robot]
  goals r := by
    show σ.position r ∈ s'.goals.erase (σ.position q) ↔ r ∈ s.goals.erase q
    rw [Goals.mem_erase, Goals.mem_erase, hs.goals, ne_eq, σ.position.injective.eq_iff]

theorem repaint (c : Color) : σ.OnScene (s.repaint c) (s'.repaint (σ.color c)) where
  colorAt r := by
    show (s'.board.repaint s'.robot.position (σ.color c)).colorAt (σ.position r) =
      ((s.board.repaint s.robot.position c).colorAt r).map σ.color
    simp only [Board.colorAt_repaint, hs.robot, hs.passable_iff, hs.colorAt,
      σ.position.injective.eq_iff]
    split <;> rfl
  robot := hs.robot
  goals := hs.goals

/-- Turning the robot, in the two scenes by `m` and by `n` quarter turns. -/
theorem turn {m n : Int}
    (hturn : σ.heading (s.robot.heading.turn m) = (σ.heading s.robot.heading).turn n) :
    σ.OnScene (s.turn m) (s'.turn n) where
  colorAt := hs.colorAt
  robot := by
    show Robot.mk s'.robot.position (s'.robot.heading.turn n) =
      ⟨σ.position s.robot.position, σ.heading (s.robot.heading.turn m)⟩
    rw [hs.robot, hturn]
  goals := hs.goals

/-! ### One operation -/

/-- **What an operation does is the same in other names.** -/
theorem acts {o : Operation} {b : Bool} {pushed : List Frame} (hp : σ.OnProgram p p')
    (ha : Acts p.size s o b t pushed) : ∃ t',
      Acts p'.size s' (σ.onOperation o) b t' (pushed.map σ.onFrame) ∧ σ.OnScene t t' := by
  rw [hp.size]
  rcases ha with ⟨hahead, hgoals⟩ | - | - | color | hcalled
  case forward =>
    have henter := hs.enter s.robot.ahead
    rw [← hs.ahead_eq] at henter
    refine ⟨_, .forward ?_ ?_, henter⟩
    · rwa [hs.ahead_eq, hs.passable_iff]
    · rwa [henter.isEmpty_goals]
  case left =>
    have hleft := σ.left s.robot.heading
    rcases hm : σ.mirrors with - | - <;>
      simp only [onOperation, hm, if_true, Bool.false_eq_true, if_false] at hleft ⊢
    · exact ⟨_, .left, hs.turn hleft⟩
    · exact ⟨_, .right, hs.turn hleft⟩
  case right =>
    have hright := σ.heading_right s.robot.heading
    rcases hm : σ.mirrors with - | - <;>
      simp only [onOperation, hm, if_true, Bool.false_eq_true, if_false] at hright ⊢
    · exact ⟨_, .right, hs.turn hright⟩
    · exact ⟨_, .left, hs.turn hright⟩
  case paint =>
    rw [← decide_eq_decide.2 (hs.repaints_iff color)]
    exact ⟨_, .paint (σ.color color), hs.repaint color⟩
  case call => exact ⟨_, .call (hp.routine_lt_iff.2 hcalled), hs⟩

/-- An operation ends the run in the same way in other names. -/
theorem stops {o : Operation} {e : Ending} (hp : σ.OnProgram p p')
    (hstops : Stops p.size s o e t) : ∃ t', Stops p'.size s' (σ.onOperation o) e t' := by
  rw [hp.size]
  rcases hstops with hahead | ⟨hahead, hgoals⟩ | hmissing
  case blocked =>
    refine ⟨_, .blocked ?_⟩
    rwa [hs.ahead_eq, hs.passable_iff]
  case arrived =>
    refine ⟨_, .arrived ?_ ?_⟩
    · rwa [hs.ahead_eq, hs.passable_iff]
    · rwa [hs.ahead_eq, (hs.enter _).isEmpty_goals]
  case undeclared target =>
    have hfix := hp.undeclared target (Nat.le_of_not_lt hmissing)
    rw [onOperation, hfix]
    exact ⟨_, .undeclared hmissing⟩

theorem appliesOn_iff (i : Instruction) :
    (σ.onInstruction i).AppliesOn s'.color ↔ i.AppliesOn s.color := by
  rw [Instruction.AppliesOn, Instruction.AppliesOn, hs.color_eq, onInstruction,
    Option.map_eq_none_iff, (Option.map_injective σ.color.injective).eq_iff]

end OnScene

/-! ### One step -/

/-- A frame of a routine is one of the routine in other names. -/
theorem OnProgram.top (hp : σ.OnProgram p p') {frame : Frame} {r : Routine}
    (htop : p.routines[frame.routine]? = some r) :
    p'.routines[(σ.onFrame frame).routine]? = some (σ.onRoutine r) := by
  rw [onFrame, hp.routine, htop, Option.map_some]

namespace OnConfig

variable {c c' d : Config}

theorem fingerprint? (hc : σ.OnConfig c c') :
    c'.fingerprint? = c.fingerprint?.map σ.onFingerprint := by
  obtain ⟨s, stack⟩ := c
  obtain ⟨s', stack'⟩ := c'
  obtain ⟨hs : σ.OnScene s s', rfl⟩ := hc
  rcases stack with - | ⟨frame, below⟩
  · rfl
  · simp only [Config.fingerprint?, List.map_cons, hs.isEmpty_goals, hs.robot]
    split <;> rfl

/-- **A step that goes on does so in other names**, too. -/
theorem goes {b : Bool} (hc : σ.OnConfig c c') (hp : σ.OnProgram p p') (hgoes : Goes p c b d) :
    ∃ d', Goes p' c' b d' ∧ σ.OnConfig d d' := by
  obtain ⟨s', stack'⟩ := c'
  obtain ⟨hs, rfl⟩ := hc
  rcases hgoes with ⟨htop, hidle⟩ | ⟨htop, hfilled, hguard, hacts⟩
  case passed s frame below r =>
    refine ⟨_, .passed (hp.top htop) fun i hi ↦ ?_, hs, ?_⟩
    · rw [instruction?_onRoutine, Option.map_eq_some_iff] at hi
      obtain ⟨j, hj, rfl⟩ := hi
      exact fun happlies ↦ hidle j hj ((hs.appliesOn_iff j).1 happlies)
    · show resume _ _ _ = (resume _ _ _).map σ.onFrame
      rw [map_resume, length_onRoutine]
  case acted s t frame below pushed r i =>
    obtain ⟨t', hacts', ht⟩ := hs.acts hp hacts
    refine ⟨_, .acted (hp.top htop) (σ.instruction?_onRoutine_eq_some hfilled)
      ((hs.appliesOn_iff i).2 hguard) hacts', ht, ?_⟩
    show pushed.map σ.onFrame ++ resume _ _ _ = (pushed ++ resume _ _ _).map σ.onFrame
    rw [List.map_append, map_resume, length_onRoutine]

/-- **A step that ends the run does so in the same way in other names.** -/
theorem ends {e : Ending} (hc : σ.OnConfig c c') (hp : σ.OnProgram p p') (hends : Ends p c e t) :
    ∃ t', Ends p' c' e t' := by
  obtain ⟨s', stack'⟩ := c'
  obtain ⟨hs, rfl⟩ := hc
  rcases hends with - | hgoals | ⟨hgoals, htop⟩ | ⟨hgoals, htop, hfilled, hguard, hstops⟩
  case exhausted => exact ⟨_, .exhausted⟩
  case solved => exact ⟨_, .solved (hs.isEmpty_goals.trans hgoals)⟩
  case undeclared frame below =>
    -- the index keeps its name, since there is no such routine
    have hfix : (σ.onFrame frame).routine = frame.routine :=
      hp.undeclared _ (List.getElem?_eq_none_iff.1 htop)
    have htop' : p'.routines[(σ.onFrame frame).routine]? = none := by
      rw [onFrame, hp.routine, htop, Option.map_none]
    rw [← hp.size, ← hfix]
    exact ⟨_, .undeclared (hs.isEmpty_goals.trans hgoals) htop'⟩
  case stopped s frame below r i =>
    obtain ⟨t', hstops'⟩ := hs.stops hp hstops
    exact ⟨t', .stopped (hs.isEmpty_goals.trans hgoals) (hp.top htop)
      (σ.instruction?_onRoutine_eq_some hfilled) ((hs.appliesOn_iff i).2 hguard) hstops'⟩

end OnConfig

/-- **In other names the machine makes the same steps.** -/
theorem OnProgram.lockStep (hp : σ.OnProgram p p') :
    LockStep p p' σ.OnConfig σ.onFingerprint fun _ ↦ True where
  injective := σ.onFingerprint_injective
  fingerprint hc := hc.fingerprint?
  goes hc hgoes := hc.goes hp hgoes
  ends hc _ hends := hc.ends hp hends

/-! ### Whole runs -/

/-- **In other names a run ends in the same way**, after as many steps. -/
theorem map_ending_run (hp : σ.OnProgram p p') (hs : σ.OnScene s s') (fuel : Nat) :
    (run fuel s' p').map Halt.ending = (run fuel s p).map Halt.ending := by
  have hstart : σ.OnConfig (Config.start s) (Config.start s') :=
    ⟨hs, congrArg (fun k ↦ [Frame.mk k 0]) σ.routine_zero.symm⟩
  obtain ⟨hnone, hsome⟩ := hp.lockStep.runFrom fuel (Evidence.match_empty _) hstart
  rcases hrun : run fuel s p with - | h
  · rw [run, hnone hrun]
  · obtain ⟨h', hrun', hsame⟩ := hsome h hrun trivial
    rw [run, hrun', Option.map_some, Option.map_some, hsame]

end Symmetry

end TileRobot
