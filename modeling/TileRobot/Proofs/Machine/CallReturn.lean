import TileRobot.Proofs.Machine.Repetition

/-!
# Calls and returns

What a program means if calls are taken at their word: to call a routine is to run the whole of it
and then to go on with the slot after the call. `Evaluates` says so by rules, one for each thing
that can stand in a slot, with no stack and no frames.

The machine agrees (`halts_start_iff`). The two directions go different ways.

* From the machine to the rules, a stack is given a meaning of its own (`Unwinds`): run what is left
  of the routine on top, then the frames below. A step of the machine keeps that meaning, read
  backwards (`unwinds_of_next?`).
* From the rules to the machine, the induction is on the derivation, for an arbitrary stack under
  the routine that is run (`Evaluates.carries`).
-/

namespace TileRobot.Machine

variable {p : Program} {s t : Scene} {r : Routine} {h : Halt} {below : List Frame}

/-! ### The rules -/

/-- What running a row of slots comes to. -/
inductive Upshot where
  /-- The row is run to its end, with this scene. -/
  | through (scene : Scene)
  /-- The whole run ends on the way. -/
  | stopped (halt : Halt)

/-- Running a row of slots of a program from left to right on a scene comes to the given. -/
inductive Evaluates (p : Program) : Routine → Scene → Upshot → Prop where
  /-- No slot is left. -/
  | nil {s : Scene} : Evaluates p [] s (.through s)
  /-- An empty slot does nothing. -/
  | empty {r : Routine} {s : Scene} {u : Upshot} (rest : Evaluates p r s u) :
    Evaluates p (none :: r) s u
  /-- An instruction does nothing where its guard does not hold. -/
  | skipped {i : Instruction} {r : Routine} {s : Scene} {u : Upshot}
    (guard : ¬ i.AppliesOn s.color) (rest : Evaluates p r s u) : Evaluates p (some i :: r) s u
  /-- The robot turns to the left. -/
  | left {i : Instruction} {r : Routine} {s : Scene} {u : Upshot} (guard : i.AppliesOn s.color)
    (operation : i.operation = .left) (rest : Evaluates p r (s.turn 1) u) :
    Evaluates p (some i :: r) s u
  /-- The robot turns to the right. -/
  | right {i : Instruction} {r : Routine} {s : Scene} {u : Upshot} (guard : i.AppliesOn s.color)
    (operation : i.operation = .right) (rest : Evaluates p r (s.turn (-1)) u) :
    Evaluates p (some i :: r) s u
  /-- The tile under the robot is painted. -/
  | paint {i : Instruction} {r : Routine} {s : Scene} {u : Upshot} {color : Color}
    (guard : i.AppliesOn s.color) (operation : i.operation = .paint color)
    (rest : Evaluates p r (s.repaint color) u) : Evaluates p (some i :: r) s u
  /-- The tile ahead is not passable, and the run ends. -/
  | blocked {i : Instruction} {r : Routine} {s : Scene} (guard : i.AppliesOn s.color)
    (operation : i.operation = .forward) (ahead : ¬ s.board.Passable s.robot.ahead) :
    Evaluates p (some i :: r) s (.stopped ⟨.finished .fellOff, s⟩)
  /-- The robot moves and no goal is left, and the run ends. -/
  | arrived {i : Instruction} {r : Routine} {s : Scene} (guard : i.AppliesOn s.color)
    (operation : i.operation = .forward) (ahead : s.board.Passable s.robot.ahead)
    (goals : (s.enter s.robot.ahead).goals.isEmpty = true) :
    Evaluates p (some i :: r) s (.stopped ⟨.finished .solved, s.enter s.robot.ahead⟩)
  /-- The robot moves and goals are left. -/
  | moved {i : Instruction} {r : Routine} {s : Scene} {u : Upshot} (guard : i.AppliesOn s.color)
    (operation : i.operation = .forward) (ahead : s.board.Passable s.robot.ahead)
    (goals : (s.enter s.robot.ahead).goals.isEmpty = false)
    (rest : Evaluates p r (s.enter s.robot.ahead) u) : Evaluates p (some i :: r) s u
  /-- There is no routine to be called, and the run ends. -/
  | undeclared {i : Instruction} {r : Routine} {s : Scene} {target : Nat}
    (guard : i.AppliesOn s.color) (operation : i.operation = .call target)
    (missing : p.routines[target]? = none) :
    Evaluates p (some i :: r) s (.stopped ⟨.faulted (.undeclared target p.size), s⟩)
  /-- The run ends in the routine that is called. -/
  | stopped {i : Instruction} {r body : Routine} {s : Scene} {target : Nat} {h : Halt}
    (guard : i.AppliesOn s.color) (operation : i.operation = .call target)
    (called : p.routines[target]? = some body) (inner : Evaluates p body s (.stopped h)) :
    Evaluates p (some i :: r) s (.stopped h)
  /-- The routine that is called is run to its end, and the row goes on with the next slot. -/
  | returned {i : Instruction} {r body : Routine} {s t : Scene} {u : Upshot} {target : Nat}
    (guard : i.AppliesOn s.color) (operation : i.operation = .call target)
    (called : p.routines[target]? = some body) (inner : Evaluates p body s (.through t))
    (rest : Evaluates p r t u) : Evaluates p (some i :: r) s u

/-- The end to which a program comes on a scene, by the rules: without goals it is solved at once,
and otherwise the first routine is run. -/
inductive Denotes (p : Program) (s : Scene) : Halt → Prop where
  /-- There is no goal. -/
  | solved (goals : s.goals.isEmpty = true) : Denotes p s ⟨.finished .solved, s⟩
  /-- There is no routine. -/
  | undeclared (goals : s.goals.isEmpty = false) (missing : p.routines[0]? = none) :
    Denotes p s ⟨.faulted (.undeclared 0 p.size), s⟩
  /-- The run ends in the first routine. -/
  | stopped {body : Routine} {h : Halt} (goals : s.goals.isEmpty = false)
    (main : p.routines[0]? = some body) (inner : Evaluates p body s (.stopped h)) : Denotes p s h
  /-- The first routine is run to its end. -/
  | exhausted {body : Routine} {t : Scene} (goals : s.goals.isEmpty = false)
    (main : p.routines[0]? = some body) (inner : Evaluates p body s (.through t)) :
    Denotes p s ⟨.finished .exhausted, t⟩

/-! ### What a stack means -/

/-- The end to which the frames of a stack come by the rules: what is left of the top routine is
run, then the frames below. -/
inductive Unwinds (p : Program) : List Frame → Scene → Halt → Prop where
  /-- No frame is left. -/
  | nil {s : Scene} : Unwinds p [] s ⟨.finished .exhausted, s⟩
  /-- There is no such routine. -/
  | undeclared {frame : Frame} {below : List Frame} {s : Scene}
    (missing : p.routines[frame.routine]? = none) :
    Unwinds p (frame :: below) s ⟨.faulted (.undeclared frame.routine p.size), s⟩
  /-- The run ends in the top routine. -/
  | stopped {frame : Frame} {below : List Frame} {body : Routine} {s : Scene} {h : Halt}
    (top : p.routines[frame.routine]? = some body)
    (inner : Evaluates p (body.drop frame.slot) s (.stopped h)) : Unwinds p (frame :: below) s h
  /-- The top routine is run to its end. -/
  | returned {frame : Frame} {below : List Frame} {body : Routine} {s t : Scene} {h : Halt}
    (top : p.routines[frame.routine]? = some body)
    (inner : Evaluates p (body.drop frame.slot) s (.through t)) (rest : Unwinds p below t h) :
    Unwinds p (frame :: below) s h

/-- The end to which a row of slots comes with a stack under it. -/
def Finishes (p : Program) (r : Routine) (below : List Frame) (s : Scene) (h : Halt) : Prop :=
  Evaluates p r s (.stopped h) ∨ ∃ t, Evaluates p r s (.through t) ∧ Unwinds p below t h

theorem finishes_nil_iff : Finishes p [] below s h ↔ Unwinds p below s h := by
  constructor
  · rintro (hstop | ⟨t, hthrough, hbelow⟩)
    · rcases hstop
    · rcases hthrough
      exact hbelow
  · exact fun hbelow ↦ Or.inr ⟨s, .nil, hbelow⟩

theorem unwinds_cons_iff {frame : Frame} (hr : p.routines[frame.routine]? = some r) :
    Unwinds p (frame :: below) s h ↔ Finishes p (r.drop frame.slot) below s h := by
  constructor
  · rintro (_ | hmissing | ⟨htop, hinner⟩ | ⟨htop, hinner, hrest⟩)
    · rw [hr] at hmissing
      contradiction
    · obtain rfl : r = _ := Option.some.inj (hr.symm.trans htop)
      exact Or.inl hinner
    · obtain rfl : r = _ := Option.some.inj (hr.symm.trans htop)
      exact Or.inr ⟨_, hinner, hrest⟩
  · rintro (hstop | ⟨t, hthrough, hbelow⟩)
    · exact .stopped hr hstop
    · exact .returned hr hthrough hbelow

/-- The frames left to run after a frame mean the rest of its routine. -/
theorem unwinds_resume_iff {frame : Frame} (hr : p.routines[frame.routine]? = some r) :
    Unwinds p (resume r.length frame below) s h ↔
      Finishes p (r.drop (frame.slot + 1)) below s h := by
  simp only [resume]
  split
  · exact unwinds_cons_iff hr
  · rw [List.drop_eq_nil_of_le (show r.length ≤ frame.slot + 1 by omega), finishes_nil_iff]

/-! ### From the machine to the rules -/

theorem Finishes.empty (hrest : Finishes p r below s h) : Finishes p (none :: r) below s h := by
  rcases hrest with hstop | ⟨t, hthrough, hbelow⟩
  · exact Or.inl hstop.empty
  · exact Or.inr ⟨t, hthrough.empty, hbelow⟩

theorem Finishes.skipped {i : Instruction} (hguard : ¬ i.AppliesOn s.color)
    (hrest : Finishes p r below s h) : Finishes p (some i :: r) below s h := by
  rcases hrest with hstop | ⟨t, hthrough, hbelow⟩
  · exact Or.inl (.skipped hguard hstop)
  · exact Or.inr ⟨t, .skipped hguard hthrough, hbelow⟩

section Perform

variable {i : Instruction} {stack : List Frame}

/-- An operation that ends the run ends the row of its instruction. -/
theorem evaluates_of_stops {e : Ending} (hguard : i.AppliesOn s.color)
    (hstops : Stops p.size s i.operation e t) : Evaluates p (some i :: r) s (.stopped ⟨e, t⟩) := by
  generalize ho : i.operation = o at hstops
  rcases hstops with hahead | ⟨hahead, hgoals⟩ | hmissing
  · exact .blocked hguard ho hahead
  · exact .arrived hguard ho hahead hgoals
  · exact .undeclared hguard ho (List.getElem?_eq_none (Nat.le_of_not_lt hmissing))

/-- An operation that goes on leaves a stack that means the row of its instruction, if the stack
it was given means the rest of the row. -/
theorem finishes_of_acts {b : Bool} {pushed : List Frame} (hguard : i.AppliesOn s.color)
    (hstack : ∀ t k, Unwinds p stack t k ↔ Finishes p r below t k)
    (hacts : Acts p.size s i.operation b t pushed) (hnext : Unwinds p (pushed ++ stack) t h) :
    Finishes p (some i :: r) below s h := by
  -- all but a call push nothing, and then the rule of the operation is applied to the rest
  have hscene : (∀ u, Evaluates p r t u → Evaluates p (some i :: r) s u) →
      Unwinds p stack t h → Finishes p (some i :: r) below s h := by
    intro hrule hunwinds
    rcases (hstack t h).1 hunwinds with hstop | ⟨t', hthrough, hbelow⟩
    · exact Or.inl (hrule _ hstop)
    · exact Or.inr ⟨t', hrule _ hthrough, hbelow⟩
  generalize ho : i.operation = o at hacts
  rcases hacts with ⟨hahead, hgoals⟩ | - | - | color | hcalled
  · exact hscene (fun _ ↦ .moved hguard ho hahead hgoals) hnext
  · exact hscene (fun _ ↦ .left hguard ho) hnext
  · exact hscene (fun _ ↦ .right hguard ho) hnext
  · exact hscene (fun _ ↦ .paint hguard ho) hnext
  · rename_i target
    obtain ⟨body, hbody⟩ : ∃ body, p.routines[target]? = some body :=
      ⟨_, List.getElem?_eq_getElem hcalled⟩
    have htop : p.routines[(⟨target, 0⟩ : Frame).routine]? = some body := hbody
    rcases (unwinds_cons_iff htop).1 hnext with hstop | ⟨t', hthrough, hrest⟩
    · exact Or.inl (.stopped hguard ho hbody hstop)
    · rcases (hstack t' h).1 hrest with hstop | ⟨t'', hthrough', hbelow⟩
      · exact Or.inl (.returned hguard ho hbody hthrough hstop)
      · exact Or.inr ⟨t'', .returned hguard ho hbody hthrough hthrough', hbelow⟩

end Perform

/-- A step that ends the run while goals are left ends it the way the rules say. -/
theorem unwinds_of_ends {c : Config} {e : Ending} (hg : c.scene.goals.isEmpty = false)
    (he : Ends p c e t) : Unwinds p c.stack c.scene ⟨e, t⟩ := by
  rcases he with - | hgoals | ⟨-, htop⟩ | ⟨-, htop, hfilled, hguard, hstops⟩
  · exact .nil
  · exact absurd (hg.symm.trans hgoals) Bool.false_ne_true
  · exact .undeclared htop
  · refine (unwinds_cons_iff htop).2 (Or.inl ?_)
    rw [drop_of_instruction?_eq_some hfilled]
    exact evaluates_of_stops hguard hstops

/-- **A step keeps what the stack means**: the end to which the next configuration comes by the
rules is the end to which this one comes. -/
theorem unwinds_of_next? {c d : Config} (hnext : next? p c = some d)
    (hd : Unwinds p d.stack d.scene h) : Unwinds p c.stack c.scene h := by
  obtain ⟨b, -, ⟨htop, hidle⟩ | ⟨htop, hfilled, hguard, hacts⟩⟩ := exists_goes_of_next? hnext
  · rename_i s frame below r
    rw [unwinds_cons_iff htop]
    have hrest := (unwinds_resume_iff htop).1 hd
    rcases hi : r.instruction? frame.slot with - | i
    · rcases drop_of_instruction?_eq_none hi with hdrop | ⟨hdrop, hdrop'⟩
      · exact hdrop ▸ hrest.empty
      · rw [hdrop]
        rwa [hdrop'] at hrest
    · rw [drop_of_instruction?_eq_some hi]
      exact hrest.skipped (hidle i hi)
  · rw [unwinds_cons_iff htop, drop_of_instruction?_eq_some hfilled]
    exact finishes_of_acts hguard (fun _ _ ↦ unwinds_resume_iff htop) hacts hd

/-- Where the machine halts, the rules come to the same end. -/
theorem unwinds_of_haltsAt {c : Config} {n : Nat} (hg : c.scene.goals.isEmpty = false)
    (hn : HaltsAt p c n h) : Unwinds p c.stack c.scene h := by
  induction n generalizing c with
  | zero =>
    obtain ⟨d, hd, hends⟩ := haltsAt_iff.1 hn
    obtain rfl : c = d := Option.some.inj hd
    exact unwinds_of_ends hg hends
  | succ n ih =>
    -- the first step keeps what the stack means, and the rest of the path is shorter
    obtain ⟨d, hd, -⟩ := id hn
    obtain ⟨e, he, -⟩ := exists_after?_of_le (Nat.le_add_left 1 n) hd
    have hrest : HaltsAt p e n h := (haltsAt_add_iff he).1 (Nat.add_comm n 1 ▸ hn)
    exact unwinds_of_next? he (ih (isEmpty_goals_next he) hrest)

/-! ### From the rules to the machine -/

/-- What it takes for the machine to bear an upshot out: to come to the frames below with the
scene, goals being left, or to halt. -/
def Carries (p : Program) (c : Config) (below : List Frame) : Upshot → Prop
  | .through t => t.goals.isEmpty = false ∧ ∃ n, after? p c n = some ⟨t, below⟩
  | .stopped h => Halts p c h

variable {c d : Config} {u : Upshot}

theorem Carries.of_after? {n : Nat} (hn : after? p c n = some d) (hd : Carries p d below u) :
    Carries p c below u := by
  rcases u with t | h
  · obtain ⟨hg, m, hm⟩ := hd
    exact ⟨hg, n + m, after?_trans hn hm⟩
  · exact Halts.of_after? hn hd

theorem Carries.of_next? (hnext : next? p c = some d) (hd : Carries p d below u) :
    Carries p c below u :=
  Carries.of_after? (n := 1) hnext hd

/-- The frames left to run from a slot of a routine on. -/
def pending (length routine slot : Nat) (below : List Frame) : List Frame :=
  if slot < length then ⟨routine, slot⟩ :: below else below

theorem resume_eq_pending (length : Nat) (frame : Frame) (below : List Frame) :
    resume length frame below = pending length frame.routine (frame.slot + 1) below := rfl

theorem pending_of_drop_eq_cons {f k : Nat} {body : Routine} {slot : Slot}
    (hdrop : body.drop k = slot :: r) : pending body.length f k below = ⟨f, k⟩ :: below := by
  rw [pending, if_pos]
  by_contra hle
  rw [List.drop_eq_nil_of_le (Nat.le_of_not_lt hle)] at hdrop
  contradiction

theorem instruction?_of_drop_eq_cons {k : Nat} {body : Routine} {slot : Slot}
    (hdrop : body.drop k = slot :: r) : body.instruction? k = slot := by
  have hget : body[k]? = some slot := by
    rw [← List.head?_drop, hdrop, List.head?_cons]
  rw [Routine.instruction?, hget, Option.join_some]

theorem drop_succ_of_drop_eq_cons {k : Nat} {body : Routine} {slot : Slot}
    (hdrop : body.drop k = slot :: r) : body.drop (k + 1) = r := by
  rw [← List.tail_drop, hdrop, List.tail_cons]

/-- A routine without slots is entered and left again. -/
theorem Carries.of_pending {target : Nat} {body : Routine} (hg : s.goals.isEmpty = false)
    (hcalled : p.routines[target]? = some body)
    (hbody : Carries p ⟨s, pending body.length target 0 below⟩ below u) :
    Carries p ⟨s, ⟨target, 0⟩ :: below⟩ below u := by
  rw [pending] at hbody
  split at hbody
  · exact hbody
  · rename_i hempty
    have hi : body.instruction? 0 = none := by
      rw [Routine.instruction?, List.getElem?_eq_none (Nat.le_of_not_lt hempty), Option.join_none]
    have hgoes : Goes p ⟨s, ⟨target, 0⟩ :: below⟩ false ⟨s, resume body.length ⟨target, 0⟩ below⟩ :=
      .of_eq_none hcalled hi
    refine Carries.of_next? (goes_iff.2 ⟨hg, hgoes⟩).1 ?_
    rw [resume_eq_pending, pending, if_neg (show ¬ 0 + 1 < body.length by omega)]
    exact hbody

section Slot

variable {f k : Nat} {body : Routine} {i : Instruction}

/-- A slot that is passed over is left to the slots after it. -/
theorem Carries.of_passed {slot : Slot} (hg : s.goals.isEmpty = false)
    (hf : p.routines[f]? = some body) (hdrop : body.drop k = slot :: r)
    (hidle : ∀ i, slot = some i → ¬ i.AppliesOn s.color)
    (hrest : Carries p ⟨s, pending body.length f (k + 1) below⟩ below u) :
    Carries p ⟨s, pending body.length f k below⟩ below u := by
  have hi := instruction?_of_drop_eq_cons hdrop
  rw [pending_of_drop_eq_cons hdrop]
  have hgoes : Goes p ⟨s, ⟨f, k⟩ :: below⟩ false ⟨s, resume body.length ⟨f, k⟩ below⟩ :=
    .passed hf fun i hsome ↦ hidle i (hi.symm.trans hsome)
  exact Carries.of_next? (goes_iff.2 ⟨hg, hgoes⟩).1 hrest

/-- An operation that goes on is carried out, and the frames that it pushes come first. -/
theorem Carries.of_acts {o : Operation} {b : Bool} {pushed : List Frame}
    (hg : s.goals.isEmpty = false) (hf : p.routines[f]? = some body)
    (hdrop : body.drop k = some i :: r) (hguard : i.AppliesOn s.color) (ho : i.operation = o)
    (hacts : Acts p.size s o b t pushed)
    (hrest : Carries p ⟨t, pushed ++ pending body.length f (k + 1) below⟩ below u) :
    Carries p ⟨s, pending body.length f k below⟩ below u := by
  have hi := instruction?_of_drop_eq_cons hdrop
  rw [pending_of_drop_eq_cons hdrop]
  subst ho
  have hgoes : Goes p ⟨s, ⟨f, k⟩ :: below⟩ b ⟨t, pushed ++ resume body.length ⟨f, k⟩ below⟩ :=
    .acted hf hi hguard hacts
  exact Carries.of_next? (goes_iff.2 ⟨hg, hgoes⟩).1 hrest

/-- An operation that ends the run is carried out. -/
theorem Carries.of_stops {o : Operation} (hg : s.goals.isEmpty = false)
    (hf : p.routines[f]? = some body) (hdrop : body.drop k = some i :: r)
    (hguard : i.AppliesOn s.color) (ho : i.operation = o)
    (hstops : Stops p.size s o h.ending h.scene) :
    Carries p ⟨s, pending body.length f k below⟩ below (.stopped h) := by
  have hi := instruction?_of_drop_eq_cons hdrop
  rw [pending_of_drop_eq_cons hdrop]
  subst ho
  exact halts_of_ends (.stopped hg hf hi hguard hstops)

end Slot

/-- **The machine bears the rules out**, whatever frames are under the routine that is run. -/
theorem Evaluates.carries (he : Evaluates p r s u) {f k : Nat} {body : Routine}
    (hf : p.routines[f]? = some body) (hdrop : body.drop k = r) (hg : s.goals.isEmpty = false)
    (below : List Frame) : Carries p ⟨s, pending body.length f k below⟩ below u := by
  induction he generalizing f k body below with
  | nil =>
    rw [pending, if_neg (Nat.not_lt.2 (List.drop_eq_nil_iff.1 hdrop))]
    exact ⟨hg, 0, rfl⟩
  | empty rest ih =>
    exact .of_passed hg hf hdrop (fun i hsome ↦ absurd hsome (Option.some_ne_none i).symm)
      (ih hf (drop_succ_of_drop_eq_cons hdrop) hg below)
  | skipped guard rest ih =>
    exact .of_passed hg hf hdrop (fun _ hsome ↦ Option.some.inj hsome ▸ guard)
      (ih hf (drop_succ_of_drop_eq_cons hdrop) hg below)
  | left guard operation rest ih =>
    exact .of_acts hg hf hdrop guard operation .left
      (ih hf (drop_succ_of_drop_eq_cons hdrop) hg below)
  | right guard operation rest ih =>
    exact .of_acts hg hf hdrop guard operation .right
      (ih hf (drop_succ_of_drop_eq_cons hdrop) hg below)
  | @paint _ _ _ _ color guard operation rest ih =>
    exact .of_acts hg hf hdrop guard operation (.paint color)
      (ih hf (drop_succ_of_drop_eq_cons hdrop) hg below)
  | blocked guard operation ahead =>
    exact .of_stops hg hf hdrop guard operation (.blocked ahead)
  | arrived guard operation ahead goals =>
    exact .of_stops hg hf hdrop guard operation (.arrived ahead goals)
  | moved guard operation ahead goals rest ih =>
    exact .of_acts hg hf hdrop guard operation (.forward ahead goals)
      (ih hf (drop_succ_of_drop_eq_cons hdrop) goals below)
  | undeclared guard operation missing =>
    have htarget := Nat.not_lt.2 (List.getElem?_eq_none_iff.1 missing)
    exact .of_stops hg hf hdrop guard operation (.undeclared htarget)
  | stopped guard operation called inner ih =>
    have htarget := (List.getElem?_eq_some_iff.1 called).1
    refine .of_acts hg hf hdrop guard operation (.call htarget) ?_
    exact Carries.of_pending hg called (ih called rfl hg _)
  | returned guard operation called inner rest ih ihrest =>
    have htarget := (List.getElem?_eq_some_iff.1 called).1
    refine .of_acts hg hf hdrop guard operation (.call htarget) ?_
    -- the routine that is called comes through to the rest of the row
    obtain ⟨hgoals, n, hn⟩ := Carries.of_pending hg called (ih called rfl hg _)
    exact Carries.of_after? hn (ihrest hf (drop_succ_of_drop_eq_cons hdrop) hgoals below)

/-! ### Agreement -/

/-- **The machine halts exactly at the end that the rules give.** -/
theorem halts_start_iff : Halts p (Config.start s) h ↔ Denotes p s h := by
  constructor
  · rintro ⟨n, hn⟩
    rcases hg : s.goals.isEmpty with - | -
    · have hunwinds : Unwinds p [⟨0, 0⟩] s h := unwinds_of_haltsAt (c := Config.start s) hg hn
      rcases hunwinds with - | hmissing | ⟨htop, hinner⟩ | ⟨htop, hinner, hrest⟩
      · exact .undeclared hg hmissing
      · exact .stopped hg htop hinner
      · rcases hrest
        exact .exhausted hg htop hinner
    · -- without goals the machine halts at once, and in no other way
      have hstart : Halts p (Config.start s) ⟨.finished .solved, s⟩ := halts_of_ends (.solved hg)
      rw [Halts.unique ⟨n, hn⟩ hstart]
      exact .solved hg
  · rintro (hg | ⟨hg, hmissing⟩ | ⟨hg, hmain, hinner⟩ | ⟨hg, hmain, hinner⟩)
    · exact halts_of_ends (.solved hg)
    · exact halts_of_ends (.undeclared hg hmissing)
    · exact Carries.of_pending hg hmain (hinner.carries hmain rfl hg [])
    · obtain ⟨-, n, hn⟩ := Carries.of_pending hg hmain (hinner.carries hmain rfl hg [])
      exact Halts.of_after? hn (halts_of_ends .exhausted)

/-- **A run is call and return.** An answer other than a loop is the end that the rules give, scene
and all; and where the rules give an end, a run comes to that end or reports a loop. -/
theorem run_denotes (s : Scene) (p : Program) :
    (∀ fuel h, run fuel s p = some h → h.ending ≠ .finished .loopDetected → Denotes p s h) ∧
      ∀ h, Denotes p s h →
        ∃ fuel k, run fuel s p = some k ∧ (k = h ∨ k.ending = .finished .loopDetected) :=
  ⟨fun _ _ hrun hne ↦ halts_start_iff.1 (halts_of_run hrun hne),
    fun _ hdenotes ↦ exists_run_of_halts (halts_start_iff.2 hdenotes)⟩

end TileRobot.Machine
