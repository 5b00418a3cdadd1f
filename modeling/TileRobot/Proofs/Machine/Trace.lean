import TileRobot.Proofs.Machine.Repetition

/-!
# The account of a run

What an operation does to a scene and what is told of it are listed together (`performs`). A step
takes up the instruction in its slot (`Takes`) and carries the operation out, or it leaves the scene
alone and tells of no more than an instruction that was skipped (`step_visits`).

What happens along the path of the machine is listed step by step (`happened`). The step with which
the machine halts is made, so what happens in it counts; a step that would end a repetition is not
made by a run, so nothing of it counts. With this the account that a run keeps is known without the
run (`accounts_of_trace`): it lists what happened up to the end of a repetition, or up to the halt.
-/

namespace TileRobot.Machine

variable {p : Program} {c d : Config} {s : Scene} {h : Halt} {t : Trace} {seen : Evidence}
  {log : Array Event} {fuel n : Nat}

/-! ### One operation -/

/-- What an operation does to a scene, and what its account tells of it. -/
inductive Performs (s : Scene) : Operation → List Event → Scene → Prop where
  /-- The robot moves to a tile without a goal. -/
  | moved (ahead : s.board.Passable s.robot.ahead) (goal : s.robot.ahead ∉ s.goals) :
    Performs s .forward [.moved s.robot.ahead] (s.enter s.robot.ahead)
  /-- The robot moves to a tile with a goal. -/
  | collected (ahead : s.board.Passable s.robot.ahead) (goal : s.robot.ahead ∈ s.goals) :
    Performs s .forward
      [.moved s.robot.ahead, .collected (s.enter s.robot.ahead).goals.size]
      (s.enter s.robot.ahead)
  /-- The robot would move to a tile that is not passable. -/
  | blocked (ahead : ¬ s.board.Passable s.robot.ahead) : Performs s .forward [] s
  /-- The robot turns left. -/
  | left : Performs s .left [.faced (s.turn 1).robot.heading] (s.turn 1)
  /-- The robot turns right. -/
  | right : Performs s .right [.faced (s.turn (-1)).robot.heading] (s.turn (-1))
  /-- The tile under the robot changes its color. -/
  | painted {color : Color} (repaints : s.board.Repaints s.robot.position color) :
    Performs s (.paint color) [.painted s.robot.position color] (s.repaint color)
  /-- The tile under the robot has the color already. -/
  | kept {color : Color} (repaints : ¬ s.board.Repaints s.robot.position color) :
    Performs s (.paint color) [] s
  /-- A call changes nothing in the scene. -/
  | called {target : Nat} : Performs s (.call target) [] s

/-- **Every operation does what is told of it.** -/
theorem performs (declared : Nat) (s : Scene) (stack : List Frame) (o : Operation) :
    Performs s o (perform declared s stack o).events (perform declared s stack o).next.scene := by
  rcases o with - | - | - | color | target
  case forward =>
    by_cases hahead : s.board.Passable s.robot.ahead
    · simp only [perform, moveAhead, if_pos hahead]
      split
      case isTrue hgoal => exact .collected hahead hgoal
      case isFalse hgoal => exact .moved hahead hgoal
    · rw [perform_forward_of_not_passable hahead]
      exact .blocked hahead
  case left => exact .left
  case right => exact .right
  case paint =>
    simp only [perform, paintTile]
    split
    case isTrue hrepaints => exact .painted hrepaints
    case isFalse hkept => exact .kept hkept
  case call =>
    simp only [perform, callRoutine]
    split <;> exact .called

/-! ### One step -/

/-- The step from a configuration takes up the instruction of the top frame, the given frames being
left to run after it. -/
inductive Takes (p : Program) : Config → Frame → Instruction → List Frame → Prop where
  /-- Goals are left, the slot is filled and the guard holds. -/
  | intro {s : Scene} {frame : Frame} {below : List Frame} {r : Routine} {i : Instruction}
    (goals : s.goals.isEmpty = false) (top : p.routines[frame.routine]? = some r)
    (filled : r.instruction? frame.slot = some i) (guard : i.AppliesOn s.color) :
    Takes p ⟨s, frame :: below⟩ frame i (resume r.length frame below)

theorem Takes.step_eq {frame : Frame} {i : Instruction} {stack : List Frame}
    (htakes : Takes p c frame i stack) :
    step p c = (perform p.size c.scene stack i.operation).precede (.taken frame i) := by
  obtain ⟨hgoals, htop, hfilled, hguard⟩ := htakes
  rw [step_cons hgoals, runFrame_of_applies htop hfilled hguard]

/-- The filled slot that the step from a configuration comes to, in the words of its account: taken
up where the guard holds, and skipped where it does not. -/
def visit? (p : Program) (c : Config) : Option Event := do
  let frame ← c.stack.head?
  let i ← (← p.routines[frame.routine]?).instruction? frame.slot
  if c.scene.goals.isEmpty then none
  else if i.AppliesOn c.scene.color then some (.taken frame i)
  else some (.skipped frame i)

theorem Takes.visit?_eq {frame : Frame} {i : Instruction} {stack : List Frame}
    (htakes : Takes p c frame i stack) : visit? p c = some (.taken frame i) := by
  obtain ⟨hgoals, htop, hfilled, hguard⟩ := htakes
  simp [visit?, htop, hfilled, hgoals, hguard]

/-- **What a step comes to.** It takes up the instruction in a slot, or it skips it, or it comes to
no filled slot at all and nothing happens. -/
theorem step_visits (p : Program) (c : Config) :
    (∃ frame i stack, visit? p c = some (.taken frame i) ∧ Takes p c frame i stack) ∨
      (step p c).next.scene = c.scene ∧ (step p c).events = (visit? p c).toList ∧
        ∀ e ∈ visit? p c, ∃ frame i, e = .skipped frame i := by
  obtain ⟨s, stack⟩ := c
  rcases stack with - | ⟨frame, below⟩
  · exact Or.inr ⟨rfl, rfl, nofun⟩
  · rcases hg : s.goals.isEmpty with - | -
    · rw [step_cons hg]
      rcases hr : p.routines[frame.routine]? with - | r
      · have hnone : visit? p ⟨s, frame :: below⟩ = none := by simp [visit?, hr]
        rw [runFrame_of_undeclared hr, hnone]
        exact Or.inr ⟨rfl, rfl, nofun⟩
      · rcases hi : r.instruction? frame.slot with - | i
        · have hnone : visit? p ⟨s, frame :: below⟩ = none := by simp [visit?, hr, hi]
          rw [runFrame_of_empty hr hi, hnone]
          exact Or.inr ⟨rfl, rfl, nofun⟩
        · by_cases hguard : i.AppliesOn s.color
          · have htakes : Takes p ⟨s, frame :: below⟩ frame i _ := .intro hg hr hi hguard
            exact Or.inl ⟨frame, i, _, htakes.visit?_eq, htakes⟩
          · have hskipped : visit? p ⟨s, frame :: below⟩ = some (.skipped frame i) := by
              simp [visit?, hr, hi, hg, hguard]
            rw [runFrame_of_skipped hr hi hguard, hskipped]
            exact Or.inr ⟨rfl, rfl, fun e he ↦ ⟨frame, i, (Option.some.inj he).symm⟩⟩
    · have hnone : visit? p ⟨s, frame :: below⟩ = none := by simp [visit?, hg]
      rw [step_of_isEmpty hg, hnone]
      exact Or.inr ⟨rfl, rfl, nofun⟩

/-- A step carries an operation out or leaves the scene alone. In the second case it tells of no
more than an instruction that was skipped. -/
theorem step_cases (p : Program) (c : Config) :
    (∃ frame i stack, Takes p c frame i stack) ∨ (step p c).next.scene = c.scene ∧
      ((step p c).events = [] ∨ ∃ frame i, (step p c).events = [.skipped frame i]) := by
  rcases step_visits p c with ⟨frame, i, stack, -, htakes⟩ | ⟨hscene, hevents, hskipped⟩
  · exact Or.inl ⟨frame, i, stack, htakes⟩
  · rw [hevents]
    refine Or.inr ⟨hscene, ?_⟩
    rcases hvisit : visit? p c with - | e
    · exact Or.inl rfl
    · obtain ⟨frame, i, rfl⟩ := hskipped e hvisit
      exact Or.inr ⟨frame, i, rfl⟩

/-! ### Step after step -/

/-- What happens in the first `n` steps, in order. -/
def happened (p : Program) (c : Config) : Nat → List Event
  | 0 => []
  | n + 1 => happened p c n ++ (after? p c n).elim [] fun d ↦ (step p d).events

theorem happened_succ (hn : after? p c n = some d) :
    happened p c (n + 1) = happened p c n ++ (step p d).events := by
  rw [happened, hn, Option.elim_some]

/-- What has happened, has happened in one of the steps. -/
theorem mem_happened_iff {e : Event} :
    e ∈ happened p c n ↔ ∃ k < n, ∃ d, after? p c k = some d ∧ e ∈ (step p d).events := by
  induction n with
  | zero => simp [happened]
  | succ n ih =>
    have hlast : e ∈ (after? p c n).elim [] (fun d ↦ (step p d).events) ↔
        ∃ d, after? p c n = some d ∧ e ∈ (step p d).events := by
      rcases after? p c n with - | d <;> simp
    rw [happened, List.mem_append, ih, hlast]
    constructor
    · rintro (⟨k, hlt, hk⟩ | hn)
      · exact ⟨k, hlt.trans (Nat.lt_succ_self n), hk⟩
      · exact ⟨n, Nat.lt_succ_self n, hn⟩
    · rintro ⟨k, hlt, hk⟩
      rcases Nat.lt_succ_iff_lt_or_eq.1 hlt with hlt | rfl
      · exact Or.inl ⟨k, hlt, hk⟩
      · exact Or.inr hk

/-! ### An account step by step -/

theorem traceFrom_of_repeats (hrep : seen.Repeats c) :
    traceFrom p (fuel + 1) log seen c = some ⟨log.toList, .finished .loopDetected, c.scene⟩ := by
  simp only [traceFrom, if_pos hrep]

theorem traceFrom_of_ending {e : Ending} (hrep : ¬ seen.Repeats c)
    (he : (step p c).ending? = some e) :
    traceFrom p (fuel + 1) log seen c =
      some ⟨log.toList ++ (step p c).events, e, (step p c).next.scene⟩ := by
  simp only [traceFrom, if_neg hrep, he, Array.toList_appendList]

theorem traceFrom_of_proceed (hrep : ¬ seen.Repeats c) (he : (step p c).ending? = none) :
    traceFrom p (fuel + 1) log seen c =
      traceFrom p fuel (log ++ (step p c).events) (seen.update c (step p c).repainted)
        (step p c).next := by
  simp only [traceFrom, if_neg hrep, he]

/-! ### Whole accounts -/

/-- What the account of a run tells about the path from its start: what happened in the steps that
were made, and where and how the run ended. -/
inductive Accounts (p : Program) (c : Config) : Trace → Prop where
  /-- The run stops before the step that ends the first repetition. -/
  | repeated {n : Nat} {d : Config} (reached : after? p c n = some d) (fresh : Fresh p c 0 n)
    (repetition : ∃ i, Repetition p c i n) :
    Accounts p c ⟨happened p c n, .finished .loopDetected, d.scene⟩
  /-- The run stops with the step at which the machine halts, nothing having repeated before. -/
  | halted {n : Nat} {d : Config} {e : Ending} {s : Scene} (reached : after? p c n = some d)
    (fresh : Fresh p c 0 n) (ends : Ends p d e s) :
    Accounts p c ⟨happened p c n ++ (step p d).events, e, s⟩

theorem accounts_of_traceFrom (hseen : Records p c n seen) (hn : after? p c n = some d)
    (hfresh : Fresh p c 0 n) (hlog : log.toList = happened p c n)
    (ht : traceFrom p fuel log seen d = some t) : Accounts p c t := by
  induction fuel generalizing n seen log d with
  | zero => contradiction
  | succ fuel ih =>
    by_cases hrep : seen.Repeats d
    · rw [traceFrom_of_repeats hrep, hlog] at ht
      obtain rfl := Option.some.inj ht
      exact .repeated hn hfresh ((hseen.repeats_iff hn).1 hrep)
    · rcases hend : (step p d).ending? with - | e
      · rw [traceFrom_of_proceed hrep hend] at ht
        have hnext : after? p c (n + 1) = some (step p d).next := by
          rw [after?_succ_of_eq_some hn]
          exact next?_eq_some_iff.2 ⟨hend, rfl⟩
        have hnot : ∀ i, ¬ Repetition p c i n := fun i hi ↦ hrep ((hseen.repeats_iff hn).2 ⟨i, hi⟩)
        refine ih (hseen.update hn) hnext (hfresh.concat hnot) ?_ ht
        rw [Array.toList_appendList, hlog, happened_succ hn]
      · rw [traceFrom_of_ending hrep hend, hlog] at ht
        obtain rfl := Option.some.inj ht
        exact .halted hn hfresh (ends_iff.1 ⟨hend, rfl⟩)

/-- **The account of a run tells what happened on the path of the machine**, up to where the run
stops. -/
theorem accounts_of_trace (ht : trace fuel s p = some t) : Accounts p (Config.start s) t :=
  accounts_of_traceFrom (records_empty p _) rfl (fresh_self p _ 0) rfl ht

/-- Every run has an account. -/
theorem exists_trace_of_run (hrun : run fuel s p = some h) :
    ∃ events, trace fuel s p = some ⟨events, h⟩ := by
  rw [run, ← halt_traceFrom p fuel #[] ∅ (Config.start s)] at hrun
  obtain ⟨⟨events, k⟩, ht, rfl⟩ := Option.map_eq_some_iff.1 hrun
  exact ⟨events, ht⟩

end TileRobot.Machine
