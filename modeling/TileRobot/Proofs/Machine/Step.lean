import Mathlib.Order.Nat
import TileRobot.Machine.Run

/-!
# Single steps of the machine

What one step does, by rules. A step that goes on either passes over its slot or carries an
operation out (`Goes`, `goes_iff`), and one that ends the run does so for one of six reasons
(`Ends`, `ends_iff`). Most of what later modules say about steps is read off these rules.

Two laws do not depend on the operation.

* **The frames under the top are not looked at** (`step_append`). What is left to run below is
  handed on as it is.
* **A step changes the top of the stack only** (`above_or_eq_of_next?`): it leaves the frames under
  the top where they are.
-/

namespace TileRobot.Machine

variable {p : Program} {c d : Config}

theorem next?_eq_some_iff :
    next? p c = some d ↔ (step p c).ending? = none ∧ (step p c).next = d := by
  simp only [next?]
  split
  · rename_i hnone
    simp [hnone]
  · rename_i hsome
    simp [hsome]

theorem next?_eq_none_iff : next? p c = none ↔ ∃ e, (step p c).ending? = some e := by
  simp only [next?]
  split
  · rename_i hnone
    simp [hnone]
  · rename_i hsome
    simp [hsome]

/-! ### One operation -/

section Perform

variable {declared target : Nat} {s : Scene} {stack : List Frame} {color : Color}

theorem next_perform_forward (hahead : s.board.Passable s.robot.ahead) :
    (perform declared s stack .forward).next = ⟨s.enter s.robot.ahead, stack⟩ := by
  simp only [perform, moveAhead, if_pos hahead]

theorem ending?_perform_forward (hahead : s.board.Passable s.robot.ahead) :
    (perform declared s stack .forward).ending? =
      if (s.enter s.robot.ahead).goals.isEmpty then some (.finished .solved) else none := by
  simp only [perform, moveAhead, if_pos hahead]

theorem repainted_perform_forward : (perform declared s stack .forward).repainted = false := by
  simp only [perform, moveAhead]
  split <;> rfl

theorem perform_forward_of_not_passable (hahead : ¬ s.board.Passable s.robot.ahead) :
    perform declared s stack .forward = .halt [] ⟨s, stack⟩ (.finished .fellOff) := by
  simp only [perform, moveAhead, if_neg hahead]

/-- Where painting has no effect, the scene is not changed either. -/
theorem next_perform_paint :
    (perform declared s stack (.paint color)).next = ⟨s.repaint color, stack⟩ := by
  simp only [perform, paintTile]
  split
  · rfl
  · rename_i hpaint
    simp only [Step.proceed, Scene.repaint, Board.repaint_of_not_repaints hpaint]

theorem ending?_perform_paint : (perform declared s stack (.paint color)).ending? = none := by
  simp only [perform, paintTile]
  split <;> rfl

theorem repainted_perform_paint : (perform declared s stack (.paint color)).repainted =
    decide (s.board.Repaints s.robot.position color) := by
  simp only [perform, paintTile]
  split
  · rename_i hpaint
    exact (decide_eq_true hpaint).symm
  · rename_i hpaint
    exact (decide_eq_false hpaint).symm

theorem perform_call_of_lt (htarget : target < declared) :
    perform declared s stack (.call target) = .proceed [] ⟨s, ⟨target, 0⟩ :: stack⟩ := by
  simp only [perform, callRoutine, if_pos htarget]

theorem perform_call_of_not_lt (htarget : ¬ target < declared) :
    perform declared s stack (.call target) =
      .halt [] ⟨s, stack⟩ (.faulted (.undeclared target declared)) := by
  simp only [perform, callRoutine, if_neg htarget]

end Perform

/-! ### One frame -/

theorem drop_of_instruction?_eq_some {r : Routine} {k : Nat} {i : Instruction}
    (hi : r.instruction? k = some i) : r.drop k = some i :: r.drop (k + 1) := by
  obtain ⟨hlt, hget⟩ := List.getElem?_eq_some_iff.1 (Option.join_eq_some_iff.1 hi)
  rw [List.drop_eq_getElem_cons hlt, hget]

/-- Where a routine has no instruction, there is an empty slot or the routine is at its end. -/
theorem drop_of_instruction?_eq_none {r : Routine} {k : Nat} (hi : r.instruction? k = none) :
    r.drop k = none :: r.drop (k + 1) ∨ r.drop k = [] ∧ r.drop (k + 1) = [] := by
  rcases Nat.lt_or_ge k r.length with hlt | hge
  · left
    rw [List.drop_eq_getElem_cons hlt]
    rw [Routine.instruction?, List.getElem?_eq_getElem hlt, Option.join_some] at hi
    rw [hi]
  · exact Or.inr ⟨List.drop_eq_nil_of_le hge, List.drop_eq_nil_of_le (by omega)⟩

section RunFrame

variable {s : Scene} {frame : Frame} {below : List Frame} {r : Routine} {i : Instruction}

theorem runFrame_of_undeclared (hr : p.routines[frame.routine]? = none) :
    runFrame p s frame below =
      .halt [] ⟨s, below⟩ (.faulted (.undeclared frame.routine p.size)) := by
  simp only [runFrame, hr]

theorem runFrame_of_empty (hr : p.routines[frame.routine]? = some r)
    (hi : r.instruction? frame.slot = none) :
    runFrame p s frame below = .proceed [] ⟨s, resume r.length frame below⟩ := by
  simp only [runFrame, hr, hi]

theorem runFrame_of_skipped (hr : p.routines[frame.routine]? = some r)
    (hi : r.instruction? frame.slot = some i) (hguard : ¬ i.AppliesOn s.color) :
    runFrame p s frame below = .proceed [.skipped frame i] ⟨s, resume r.length frame below⟩ := by
  simp only [runFrame, hr, hi, if_neg hguard]

theorem runFrame_of_applies (hr : p.routines[frame.routine]? = some r)
    (hi : r.instruction? frame.slot = some i) (hguard : i.AppliesOn s.color) :
    runFrame p s frame below =
      (perform p.size s (resume r.length frame below) i.operation).precede (.taken frame i) := by
  simp only [runFrame, hr, hi, if_pos hguard]

end RunFrame

/-! ### Steps that go on -/

/-- Carrying an operation out on a scene, in a program with so many routines, goes on: a tile has
changed its color or not, and there is a next scene and a list of frames to be run first. -/
inductive Acts (declared : Nat) (s : Scene) : Operation → Bool → Scene → List Frame → Prop where
  /-- The robot moves, and goals are left. -/
  | forward (ahead : s.board.Passable s.robot.ahead)
    (goals : (s.enter s.robot.ahead).goals.isEmpty = false) :
    Acts declared s .forward false (s.enter s.robot.ahead) []
  /-- The robot turns to the left. -/
  | left : Acts declared s .left false (s.turn 1) []
  /-- The robot turns to the right. -/
  | right : Acts declared s .right false (s.turn (-1)) []
  /-- The tile under the robot is painted. -/
  | paint (color : Color) :
    Acts declared s (.paint color) (decide (s.board.Repaints s.robot.position color))
      (s.repaint color) []
  /-- A routine is called. -/
  | call {target : Nat} (called : target < declared) :
    Acts declared s (.call target) false s [⟨target, 0⟩]

/-- A step goes on from one configuration to another, a tile having changed its color or not. -/
inductive Goes (p : Program) : Config → Bool → Config → Prop where
  /-- The slot is empty, or the guard of its instruction does not hold. -/
  | passed {s : Scene} {frame : Frame} {below : List Frame} {r : Routine}
    (top : p.routines[frame.routine]? = some r)
    (idle : ∀ i, r.instruction? frame.slot = some i → ¬ i.AppliesOn s.color) :
    Goes p ⟨s, frame :: below⟩ false ⟨s, resume r.length frame below⟩
  /-- The operation in the slot is carried out. -/
  | acted {s t : Scene} {frame : Frame} {below pushed : List Frame} {r : Routine}
    {i : Instruction} {b : Bool} (top : p.routines[frame.routine]? = some r)
    (filled : r.instruction? frame.slot = some i) (guard : i.AppliesOn s.color)
    (acts : Acts p.size s i.operation b t pushed) :
    Goes p ⟨s, frame :: below⟩ b ⟨t, pushed ++ resume r.length frame below⟩

/-- An empty slot is passed over. -/
theorem Goes.of_eq_none {s : Scene} {frame : Frame} {below : List Frame} {r : Routine}
    (top : p.routines[frame.routine]? = some r) (empty : r.instruction? frame.slot = none) :
    Goes p ⟨s, frame :: below⟩ false ⟨s, resume r.length frame below⟩ :=
  .passed top fun i hsome ↦ absurd (empty.symm.trans hsome) (Option.some_ne_none i).symm

section Acts

variable {declared : Nat} {s t : Scene} {stack pushed : List Frame} {o : Operation} {b : Bool}

/-- What carrying an operation out comes to, where it goes on. -/
theorem acts_of_perform (hend : (perform declared s stack o).ending? = none) :
    ∃ pushed, (perform declared s stack o).next.stack = pushed ++ stack ∧
      Acts declared s o (perform declared s stack o).repainted
        (perform declared s stack o).next.scene pushed := by
  rcases o with - | - | - | color | target
  · by_cases hahead : s.board.Passable s.robot.ahead
    · rw [ending?_perform_forward hahead] at hend
      rw [next_perform_forward hahead, repainted_perform_forward]
      exact ⟨[], rfl, .forward hahead (Bool.eq_false_iff.2 fun hgoals ↦ by simp [hgoals] at hend)⟩
    · rw [perform_forward_of_not_passable hahead] at hend
      contradiction
  · exact ⟨[], rfl, .left⟩
  · exact ⟨[], rfl, .right⟩
  · rw [next_perform_paint, repainted_perform_paint]
    exact ⟨[], rfl, .paint color⟩
  · by_cases htarget : target < declared
    · rw [perform_call_of_lt htarget]
      exact ⟨[⟨target, 0⟩], rfl, .call htarget⟩
    · rw [perform_call_of_not_lt htarget] at hend
      contradiction

theorem perform_of_acts (ha : Acts declared s o b t pushed) (stack : List Frame) :
    (perform declared s stack o).ending? = none ∧ (perform declared s stack o).repainted = b ∧
      (perform declared s stack o).next = ⟨t, pushed ++ stack⟩ := by
  rcases ha with ⟨hahead, hgoals⟩ | - | - | color | hcalled
  · rw [ending?_perform_forward hahead, next_perform_forward hahead, hgoals]
    exact ⟨rfl, repainted_perform_forward, rfl⟩
  · exact ⟨rfl, rfl, rfl⟩
  · exact ⟨rfl, rfl, rfl⟩
  · exact ⟨ending?_perform_paint, repainted_perform_paint, next_perform_paint⟩
  · rw [perform_call_of_lt hcalled]
    exact ⟨rfl, rfl, rfl⟩

/-- Carrying an operation out leaves goals, if there were any. -/
theorem Acts.isEmpty_goals (ha : Acts declared s o b t pushed) (hg : s.goals.isEmpty = false) :
    t.goals.isEmpty = false := by
  rcases ha with ⟨-, hgoals⟩ | - | - | - | -
  · exact hgoals
  all_goals exact hg

end Acts

/-- A step that goes on was made with goals left. -/
theorem isEmpty_goals_of_next? (hnext : next? p c = some d) : c.scene.goals.isEmpty = false := by
  obtain ⟨s, stack⟩ := c
  rcases stack with - | ⟨frame, below⟩
  · simp [next?, step_nil, Step.halt] at hnext
  · by_contra hg
    simp [next?, step_of_isEmpty (Bool.of_not_eq_false hg), Step.halt] at hnext

/-- **A step goes on by the rules**, and as long as goals are left every rule makes a step. -/
theorem goes_iff {b : Bool} : next? p c = some d ∧ (step p c).repainted = b ↔
    c.scene.goals.isEmpty = false ∧ Goes p c b d := by
  constructor
  · rintro ⟨hnext, rfl⟩
    have hg := isEmpty_goals_of_next? hnext
    refine ⟨hg, ?_⟩
    obtain ⟨hend, rfl⟩ := next?_eq_some_iff.1 hnext
    obtain ⟨s, stack⟩ := c
    rcases stack with - | ⟨frame, below⟩
    · contradiction
    · rw [step_cons hg] at hend ⊢
      rcases hr : p.routines[frame.routine]? with - | r
      · rw [runFrame_of_undeclared hr] at hend
        contradiction
      · rcases hi : r.instruction? frame.slot with - | i
        · rw [runFrame_of_empty hr hi]
          exact .of_eq_none hr hi
        · by_cases hguard : i.AppliesOn s.color
          · rw [runFrame_of_applies hr hi hguard] at hend ⊢
            obtain ⟨pushed, hstack, hacts⟩ := acts_of_perform hend
            have hgoes : Goes p ⟨s, frame :: below⟩ _ ⟨_, pushed ++ _⟩ := .acted hr hi hguard hacts
            rwa [← hstack] at hgoes
          · rw [runFrame_of_skipped hr hi hguard]
            exact .passed hr fun j hsome ↦ Option.some.inj (hi.symm.trans hsome) ▸ hguard
  · rintro ⟨hg, ⟨htop, hidle⟩ | ⟨htop, hfilled, hguard, hacts⟩⟩
    · rename_i s frame below r
      rw [next?_eq_some_iff, step_cons hg]
      rcases hi : r.instruction? frame.slot with - | i
      · rw [runFrame_of_empty htop hi]
        exact ⟨⟨rfl, rfl⟩, rfl⟩
      · rw [runFrame_of_skipped htop hi (hidle i hi)]
        exact ⟨⟨rfl, rfl⟩, rfl⟩
    · rename_i s t frame below pushed r i
      obtain ⟨hend, hrepainted, hnext⟩ := perform_of_acts hacts (resume r.length frame below)
      rw [next?_eq_some_iff, step_cons hg, runFrame_of_applies htop hfilled hguard]
      exact ⟨⟨hend, hnext⟩, hrepainted⟩

theorem exists_goes_of_next? (hnext : next? p c = some d) :
    ∃ b, (step p c).repainted = b ∧ Goes p c b d :=
  ⟨_, rfl, (goes_iff.1 ⟨hnext, rfl⟩).2⟩

/-- A step that goes on is one of a program with a routine. -/
theorem size_pos_of_next? (hnext : next? p c = some d) : 0 < p.size := by
  obtain ⟨b, -, ⟨htop, -⟩ | ⟨htop, -, -, -⟩⟩ := exists_goes_of_next? hnext <;>
    exact Nat.zero_lt_of_lt (List.getElem?_eq_some_iff.1 htop).1

/-- **A step that goes on leaves goals**, for the machine halts as soon as none is left. -/
theorem isEmpty_goals_next (hnext : next? p c = some d) : d.scene.goals.isEmpty = false := by
  have hg := isEmpty_goals_of_next? hnext
  obtain ⟨b, -, - | ⟨-, -, -, hacts⟩⟩ := exists_goes_of_next? hnext
  · exact hg
  · exact hacts.isEmpty_goals hg

/-! ### Steps that end the run -/

/-- Carrying an operation out on a scene, in a program with so many routines, ends the run in the
given way and with the given scene. -/
inductive Stops (declared : Nat) (s : Scene) : Operation → Ending → Scene → Prop where
  /-- The tile ahead is not passable. -/
  | blocked (ahead : ¬ s.board.Passable s.robot.ahead) :
    Stops declared s .forward (.finished .fellOff) s
  /-- The robot moves, and no goal is left. -/
  | arrived (ahead : s.board.Passable s.robot.ahead)
    (goals : (s.enter s.robot.ahead).goals.isEmpty = true) :
    Stops declared s .forward (.finished .solved) (s.enter s.robot.ahead)
  /-- There is no such routine to be called. -/
  | undeclared {target : Nat} (missing : ¬ target < declared) :
    Stops declared s (.call target) (.faulted (.undeclared target declared)) s

/-- A step from a configuration ends the run, in the given way and with the given scene. -/
inductive Ends (p : Program) : Config → Ending → Scene → Prop where
  /-- No frame is left. -/
  | exhausted {s : Scene} : Ends p ⟨s, []⟩ (.finished .exhausted) s
  /-- No goal is left. -/
  | solved {s : Scene} {frame : Frame} {below : List Frame} (goals : s.goals.isEmpty = true) :
    Ends p ⟨s, frame :: below⟩ (.finished .solved) s
  /-- The frame is one of a routine that does not exist. -/
  | undeclared {s : Scene} {frame : Frame} {below : List Frame} (goals : s.goals.isEmpty = false)
    (top : p.routines[frame.routine]? = none) :
    Ends p ⟨s, frame :: below⟩ (.faulted (.undeclared frame.routine p.size)) s
  /-- The operation in the slot ends the run. -/
  | stopped {s t : Scene} {frame : Frame} {below : List Frame} {r : Routine} {i : Instruction}
    {e : Ending} (goals : s.goals.isEmpty = false) (top : p.routines[frame.routine]? = some r)
    (filled : r.instruction? frame.slot = some i) (guard : i.AppliesOn s.color)
    (stops : Stops p.size s i.operation e t) : Ends p ⟨s, frame :: below⟩ e t

section Ends

variable {declared : Nat} {s t : Scene} {stack : List Frame} {o : Operation} {e : Ending}

/-- What carrying an operation out comes to, where it ends the run. -/
theorem stops_of_perform (hend : (perform declared s stack o).ending? = some e) :
    Stops declared s o e (perform declared s stack o).next.scene := by
  rcases o with - | - | - | color | target
  · by_cases hahead : s.board.Passable s.robot.ahead
    · rw [ending?_perform_forward hahead] at hend
      rw [next_perform_forward hahead]
      split at hend
      · rename_i hgoals
        obtain rfl := Option.some.inj hend
        exact .arrived hahead hgoals
      · contradiction
    · rw [perform_forward_of_not_passable hahead] at hend ⊢
      obtain rfl := Option.some.inj hend
      exact .blocked hahead
  · contradiction
  · contradiction
  · rw [ending?_perform_paint] at hend
    contradiction
  · by_cases htarget : target < declared
    · rw [perform_call_of_lt htarget] at hend
      contradiction
    · rw [perform_call_of_not_lt htarget] at hend ⊢
      obtain rfl := Option.some.inj hend
      exact .undeclared htarget

theorem perform_of_stops (hs : Stops declared s o e t) (stack : List Frame) :
    (perform declared s stack o).ending? = some e ∧
      (perform declared s stack o).next.scene = t := by
  rcases hs with hahead | ⟨hahead, hgoals⟩ | hmissing
  · rw [perform_forward_of_not_passable hahead]
    exact ⟨rfl, rfl⟩
  · rw [ending?_perform_forward hahead, next_perform_forward hahead, if_pos hgoals]
    exact ⟨rfl, rfl⟩
  · rw [perform_call_of_not_lt hmissing]
    exact ⟨rfl, rfl⟩

/-- **A step ends the run by the rules**, and every rule ends it. -/
theorem ends_iff : (step p c).ending? = some e ∧ (step p c).next.scene = t ↔ Ends p c e t := by
  constructor
  · rintro ⟨hend, rfl⟩
    obtain ⟨s, stack⟩ := c
    rcases stack with - | ⟨frame, below⟩
    · obtain rfl := Option.some.inj hend
      exact .exhausted
    · rcases hg : s.goals.isEmpty with - | -
      · rw [step_cons hg] at hend ⊢
        rcases hr : p.routines[frame.routine]? with - | r
        · rw [runFrame_of_undeclared hr] at hend ⊢
          obtain rfl := Option.some.inj hend
          exact .undeclared hg hr
        · rcases hi : r.instruction? frame.slot with - | i
          · rw [runFrame_of_empty hr hi] at hend
            contradiction
          · by_cases hguard : i.AppliesOn s.color
            · rw [runFrame_of_applies hr hi hguard] at hend ⊢
              exact .stopped hg hr hi hguard (stops_of_perform hend)
            · rw [runFrame_of_skipped hr hi hguard] at hend
              contradiction
      · rw [step_of_isEmpty hg] at hend ⊢
        obtain rfl := Option.some.inj hend
        exact .solved hg
  · rintro (- | hg | ⟨hg, htop⟩ | ⟨hg, htop, hfilled, hguard, hstops⟩)
    · exact ⟨rfl, rfl⟩
    · rw [step_of_isEmpty hg]
      exact ⟨rfl, rfl⟩
    · rw [step_cons hg, runFrame_of_undeclared htop]
      exact ⟨rfl, rfl⟩
    · rw [step_cons hg, runFrame_of_applies htop hfilled hguard]
      exact perform_of_stops hstops _

theorem Stops.ne_loopDetected (hs : Stops declared s o e t) : e ≠ .finished .loopDetected := by
  rcases hs with - | - | - <;> exact nofun

/-- The machine itself knows nothing of loops. -/
theorem Ends.ne_loopDetected (he : Ends p c e t) : e ≠ .finished .loopDetected := by
  rcases he with - | - | - | ⟨-, -, -, -, hstops⟩
  case stopped => exact hstops.ne_loopDetected
  all_goals exact nofun

end Ends

/-! ### Frames under the top -/

/-- The step with further frames under those that it leaves. -/
def Step.over (a : Step) (below : List Frame) : Step :=
  { a with next := ⟨a.next.scene, a.next.stack ++ below⟩ }

@[simp] theorem Step.next_over (a : Step) (below : List Frame) :
    (a.over below).next = ⟨a.next.scene, a.next.stack ++ below⟩ := rfl

/-- An operation hands on the frames that are left to run. -/
theorem perform_eq_over (declared : Nat) (s : Scene) (stack : List Frame) (o : Operation) :
    perform declared s stack o = (perform declared s [] o).over stack := by
  cases o <;> simp only [perform, moveAhead, paintTile, turnRobot, callRoutine]
  case forward => split <;> rfl
  case paint => split <;> rfl
  case call => split <;> rfl
  all_goals rfl

theorem resume_append (length : Nat) (frame : Frame) (above below : List Frame) :
    resume length frame (above ++ below) = resume length frame above ++ below := by
  simp only [resume]
  split <;> rfl

/-- Running a frame hands on the frames under it. -/
theorem runFrame_append (p : Program) (s : Scene) (frame : Frame) (above below : List Frame) :
    runFrame p s frame (above ++ below) = (runFrame p s frame above).over below := by
  simp only [runFrame, resume_append]
  split
  · rfl
  · split
    · rfl
    · split
      · rw [perform_eq_over, perform_eq_over _ _ (resume _ _ above)]
        simp only [Step.over, Step.precede, List.append_assoc]
      · rfl

/-- **A step does not look at the frames under the top.** -/
theorem step_append (p : Program) (s : Scene) {above : List Frame} (hne : above ≠ [])
    (below : List Frame) : step p ⟨s, above ++ below⟩ = (step p ⟨s, above⟩).over below := by
  obtain ⟨frame, above, rfl⟩ := List.exists_cons_of_ne_nil hne
  rw [List.cons_append]
  rcases hg : s.goals.isEmpty with - | -
  · rw [step_cons hg, step_cons hg, runFrame_append]
  · rw [step_of_isEmpty hg, step_of_isEmpty hg]
    rfl

/-- Without frames the machine halts, so a step that goes on has one to run. -/
theorem stack_ne_nil_of_next? (hnext : next? p c = some d) : c.stack ≠ [] := by
  obtain ⟨s, stack⟩ := c
  rintro rfl
  simp [next?, step_nil, Step.halt] at hnext

theorem next?_append {s t : Scene} {above above' : List Frame}
    (hnext : next? p ⟨s, above⟩ = some ⟨t, above'⟩) (below : List Frame) :
    next? p ⟨s, above ++ below⟩ = some ⟨t, above' ++ below⟩ := by
  have hne := stack_ne_nil_of_next? hnext
  obtain ⟨hend, hstep⟩ := next?_eq_some_iff.1 hnext
  rw [next?_eq_some_iff, step_append p s hne below]
  exact ⟨hend, by rw [Step.next_over, hstep]⟩

/-! ### Above given frames -/

/-- The frames `below` are left to run, and others are to be run before them. -/
def Above (below : List Frame) (c : Config) : Prop := ∃ above, above ≠ [] ∧ c.stack = above ++ below

/-- **A step changes the top of the stack only**: the frames under it stay, perhaps uncovered. -/
theorem above_or_eq_of_next? {below : List Frame} (hc : Above below c)
    (hnext : next? p c = some d) : Above below d ∨ d.stack = below := by
  obtain ⟨s, stack⟩ := c
  obtain ⟨above, hne, rfl⟩ := hc
  obtain ⟨-, hstep⟩ := next?_eq_some_iff.1 hnext
  rw [step_append p s hne below, Step.next_over] at hstep
  subst hstep
  by_cases hnil : (step p ⟨s, above⟩).next.stack = []
  · right
    simp [hnil]
  · left
    exact ⟨_, hnil, rfl⟩

end TileRobot.Machine
