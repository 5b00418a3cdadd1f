import Mathlib.Algebra.Group.Nat.Defs
import TileRobot.Proofs.Machine.Account
import TileRobot.Proofs.Machine.Invariant

/-!
# Where runs fault

A run faults when it asks for a routine that does not exist. It never does so with a frame of its
own, if there is a routine to start from: the frames that it holds stand in the program, so the
routine of each is found. What is left are the calls, and of these not all that stand in the
program: a call to a routine that does not exist does no harm where its guard does not hold, or
where the run has ended before it comes to the call. So a run faults exactly if it takes such a call
up (`endsWith_faulted_iff_of_pos`), and the fault names the routine that was called. Without a
routine to start from, it faults at once unless there is no goal
(`endsWith_faulted_iff_of_size_eq_zero`).

What a run takes up is said about the path of the machine (`TakesUp`), and it is what the account of
the run tells (`taken_mem_iff_of_trace`).
-/

namespace TileRobot.Machine

variable {p : Program} {c d : Config} {s t : Scene} {a : Trace} {h : Halt} {frame : Frame}
  {i : Instruction} {stack : List Frame} {f : ProgramFault} {n fuel : Nat}

/-! ### Instructions taken up -/

/-- The run on a scene takes up the instruction of a frame: the machine comes to a step that does
so, and the watch for loops has stopped the run neither at this step nor before. -/
def TakesUp (p : Program) (s : Scene) (frame : Frame) (i : Instruction) : Prop :=
  ∃ n d stack, after? p (Config.start s) n = some d ∧ Fresh p (Config.start s) 0 (n + 1) ∧
    Takes p d frame i stack

/-- An instruction that is taken up stands in a routine of the program. -/
theorem TakesUp.exists_mem (htakes : TakesUp p s frame i) :
    ∃ r ∈ p.routines, i ∈ Routine.instructions r := by
  obtain ⟨n, d, stack, -, -, -, htop, hfilled, -⟩ := htakes
  have hslot := List.mem_of_getElem? (Option.join_eq_some_iff.1 hfilled)
  exact ⟨_, List.mem_of_getElem? htop, Routine.mem_instructions.2 hslot⟩

theorem TakesUp.size_pos (htakes : TakesUp p s frame i) : 0 < p.size := by
  obtain ⟨r, hr, -⟩ := htakes.exists_mem
  exact List.length_pos_of_mem hr

/-- A step takes up the instruction that its account says it does. -/
theorem taken_mem_events_iff :
    .taken frame i ∈ (step p c).events ↔ ∃ stack, Takes p c frame i stack := by
  have hvisit : .taken frame i ∈ (step p c).events ↔ visit? p c = some (.taken frame i) := by
    rw [← Option.mem_toList, ← filter_events_step, List.mem_filter]
    exact (and_iff_left rfl).symm
  rw [hvisit]
  constructor
  · intro htaken
    rcases step_visits p c with ⟨frame', i', stack, htaken', htakes⟩ | ⟨-, -, hskipped⟩
    · obtain ⟨rfl, rfl⟩ : frame' = frame ∧ i' = i := by
        simpa using htaken'.symm.trans htaken
      exact ⟨stack, htakes⟩
    · obtain ⟨frame', i', heq⟩ := hskipped _ htaken
      contradiction
  · rintro ⟨stack, htakes⟩
    exact htakes.visit?_eq

/-- The account of a run lists what happened in the steps that the run makes. These are the steps
that the machine comes to without a repetition, the step itself included. -/
theorem exists_happened_of_trace (ht : trace fuel s p = some a) :
    ∃ n, a.events = happened p (Config.start s) n ∧ Fresh p (Config.start s) 0 n ∧
      ∀ k d, after? p (Config.start s) k = some d → Fresh p (Config.start s) 0 (k + 1) → k < n := by
  have hrun : run fuel s p = some a.halt := by
    rw [run, ← halt_traceFrom p fuel #[] ∅, ← trace, ht, Option.map_some]
  rcases accounts_of_trace ht with @⟨n, d, hn, hfresh, i, hrep⟩ | @⟨n, d, e, u, hn, -, hends⟩
  case repeated =>
    refine ⟨n, rfl, hfresh, fun k d' _ hfresh' ↦ ?_⟩
    by_contra hge
    exact hfresh' n (Nat.zero_le n) (by omega) i hrep
  case halted =>
    have hhalts : HaltsAt p (Config.start s) n ⟨e, u⟩ := haltsAt_iff.2 ⟨d, hn, hends⟩
    -- where the machine halts is where the run has ended, so nothing repeats there either
    obtain ⟨m, d', t, hm, hfresh, hends'⟩ :=
      (endsWith_iff hends.ne_loopDetected).1 ⟨fuel, _, hrun, rfl⟩
    obtain ⟨rfl, -⟩ := (haltsAt_iff.2 ⟨d', hm, hends'⟩ : HaltsAt p _ m ⟨e, t⟩).unique hhalts
    exact ⟨m + 1, (happened_succ hn).symm, hfresh, fun k d'' hk _ ↦
      Nat.lt_succ_of_le (le_of_haltsAt hhalts hk)⟩

/-- **The account of a run tells what the run takes up.** -/
theorem taken_mem_iff_of_trace (ht : trace fuel s p = some a) :
    .taken frame i ∈ a.events ↔ TakesUp p s frame i := by
  obtain ⟨n, hevents, hfresh, hlast⟩ := exists_happened_of_trace ht
  simp only [hevents, mem_happened_iff, taken_mem_events_iff]
  constructor
  · rintro ⟨k, hlt, d, hk, stack, htakes⟩
    exact ⟨k, d, stack, hk, hfresh.mono hlt, htakes⟩
  · rintro ⟨k, d, stack, hk, hfresh', htakes⟩
    exact ⟨k, hlast k d hk hfresh', d, hk, stack, htakes⟩

/-! ### Faults -/

/-- A call of a routine that does not exist faults where it is taken up. -/
theorem Takes.ends_faulted {target : Nat} (htakes : Takes p c frame i stack)
    (hcall : i.operation = .call target) (hmissing : ¬ target < p.size) :
    Ends p c (.faulted (.undeclared target p.size)) c.scene := by
  obtain ⟨hgoals, htop, hfilled, hguard⟩ := htakes
  refine .stopped hgoals htop hfilled hguard ?_
  rw [hcall]
  exact .undeclared hmissing

/-- **Nothing else faults**, where the frames stand in the program. -/
theorem Ends.exists_takes (hends : Ends p c (.faulted f) t) (hc : c.Stands p) :
    ∃ frame i stack target, Takes p c frame i stack ∧ i.operation = .call target ∧
      ¬ target < p.size ∧ f = .undeclared target p.size := by
  generalize he : Ending.faulted f = e at hends
  rcases hends with - | - | ⟨-, hnone⟩ | ⟨hgoals, htop, hfilled, hguard, hstops⟩
  case exhausted => contradiction
  case solved => contradiction
  case undeclared =>
    obtain ⟨r, hr, -⟩ := hc _ List.mem_cons_self
    rw [hnone] at hr
    contradiction
  case stopped s frame below r i =>
    have htakes : Takes p ⟨s, frame :: below⟩ frame i _ := .intro hgoals htop hfilled hguard
    generalize ho : i.operation = o at hstops
    rcases hstops with - | - | hmissing
    case blocked => contradiction
    case arrived => contradiction
    case undeclared target =>
      exact ⟨frame, i, _, target, htakes, ho, hmissing, Ending.faulted.inj he⟩

/-- **A run faults exactly if it takes a call up to a routine that does not exist**, if there is a
routine to start from. -/
theorem endsWith_faulted_iff_of_pos (hp : 0 < p.size) :
    EndsWith s p (.faulted f) ↔ ∃ frame i target, TakesUp p s frame i ∧
      i.operation = .call target ∧ ¬ target < p.size ∧ f = .undeclared target p.size := by
  rw [endsWith_iff (e := .faulted f) nofun]
  constructor
  · rintro ⟨n, d, t, hd, hfresh, hends⟩
    obtain ⟨frame, i, stack, target, htakes, hcall, hmissing, hf⟩ :=
      hends.exists_takes (stands_of_after? hd (stands_start hp s))
    exact ⟨frame, i, target, ⟨n, d, stack, hd, hfresh, htakes⟩, hcall, hmissing, hf⟩
  · rintro ⟨frame, i, target, ⟨n, d, stack, hd, hfresh, htakes⟩, hcall, hmissing, rfl⟩
    exact ⟨n, d, d.scene, hd, hfresh, htakes.ends_faulted hcall hmissing⟩

/-- Without a routine the machine does not get anywhere. -/
theorem eq_zero_of_after?_of_size_eq_zero (hp : p.size = 0) (hn : after? p c n = some d) :
    n = 0 := by
  rcases n with - | n
  · rfl
  · obtain ⟨e, -, hnext⟩ := exists_next?_of_after?_succ hn
    have := size_pos_of_next? hnext
    omega

/-- **Without a routine a run faults exactly if there is a goal**, since it asks for the first
routine. -/
theorem endsWith_faulted_iff_of_size_eq_zero (hp : p.size = 0) :
    EndsWith s p (.faulted f) ↔ s.goals.isEmpty = false ∧ f = .undeclared 0 0 := by
  have hmissing : p.routines[0]? = none := List.getElem?_eq_none hp.le
  rw [endsWith_iff (e := .faulted f) nofun]
  constructor
  · rintro ⟨n, d, t, hd, -, hends⟩
    obtain rfl := eq_zero_of_after?_of_size_eq_zero hp hd
    obtain rfl : Config.start s = d := Option.some.inj hd
    rcases hends with - | - | ⟨hgoals, -⟩ | ⟨-, htop, -, -, -⟩
    · exact ⟨hgoals, by rw [hp]⟩
    · rw [hmissing] at htop
      contradiction
  · rintro ⟨hgoals, rfl⟩
    have hends : Ends p (Config.start s) (.faulted (.undeclared 0 p.size)) s :=
      .undeclared hgoals hmissing
    rw [hp] at hends
    exact ⟨0, _, s, rfl, fresh_of_nodup (List.nodup_singleton _), hends⟩

/-- **Where a run faults**, with a routine to start from and without. -/
theorem endsWith_faulted_iff : EndsWith s p (.faulted f) ↔
    p.size = 0 ∧ s.goals.isEmpty = false ∧ f = .undeclared 0 0 ∨
      ∃ frame i target, TakesUp p s frame i ∧ i.operation = .call target ∧
        ¬ target < p.size ∧ f = .undeclared target p.size := by
  rcases Nat.eq_zero_or_pos p.size with hp | hp
  · have hnone : ¬ ∃ frame i target, TakesUp p s frame i ∧ i.operation = .call target ∧
        ¬ target < p.size ∧ f = .undeclared target p.size := by
      rintro ⟨frame, i, target, htakes, -⟩
      exact htakes.size_pos.ne' hp
    rw [endsWith_faulted_iff_of_size_eq_zero hp, or_iff_left hnone, and_iff_right hp]
  · rw [endsWith_faulted_iff_of_pos hp, or_iff_right fun hzero ↦ hp.ne' hzero.1]

/-- So long as each call that is taken up names a routine, a run ends by the rules. -/
theorem exists_finished_of_run (hstart : 0 < p.size ∨ s.goals.isEmpty = true)
    (hcalls : ∀ frame i target, TakesUp p s frame i → i.operation = .call target → target < p.size)
    (hrun : run fuel s p = some h) : ∃ o, h.ending = .finished o := by
  rcases hending : h.ending with o | f
  · exact ⟨o, rfl⟩
  · rcases endsWith_faulted_iff.1 ⟨fuel, h, hrun, hending⟩ with
      ⟨hp, hgoals, -⟩ | ⟨frame, i, target, htakes, hcall, hmissing, -⟩
    · rcases hstart with hpos | hempty
      · exact absurd hp hpos.ne'
      · exact absurd (hgoals.symm.trans hempty) Bool.false_ne_true
    · exact absurd (hcalls frame i target htakes hcall) hmissing

/-! ### Frames -/

/-- A frame that stands in a program names a slot that there is, or the first slot of a routine
without slots. The index of the next slot has a place in 64 bits, as the number of slots has. -/
theorem Frame.Stands.exists_routine (hframe : frame.Stands p) :
    ∃ r, p.routines[frame.routine]? = some r ∧ (frame.slot < r.length ∨ r = [] ∧ frame.slot = 0) ∧
      (r.length < 2 ^ 64 → frame.slot + 1 < 2 ^ 64) := by
  obtain ⟨r, hr, hslot⟩ := hframe
  refine ⟨r, hr, ?_, fun hlength ↦ by omega⟩
  rcases r with - | ⟨slot, r⟩
  · exact Or.inr ⟨rfl, Nat.lt_one_iff.1 hslot⟩
  · exact Or.inl (hslot.trans_eq (Nat.max_eq_right (Nat.succ_le_succ (Nat.zero_le r.length))))

/-- **The frames of a run stand in the program, and its faults are those of the calls that it takes
up.** If there is a routine to start from, every frame on the stack at a step, and every frame left
there after it, names a routine of the program and a slot of this routine, or the first slot of a
routine without slots. A run faults if there is no routine to start from though there are goals, or
if it takes up a call of a routine that does not exist, and in no other case; the fault names the
routine that was asked for and the number of routines. What a run takes up is what its account says
it does. So long as each call that it takes up names a routine, the run ends by the rules, whatever
calls are skipped or never come to. -/
theorem endsWith_faulted_iff_takesUp (s : Scene) (p : Program) :
    (0 < p.size → ∀ n d, after? p (Config.start s) n = some d →
      ∀ frame, frame ∈ d.stack ∨ frame ∈ (step p d).next.stack →
        ∃ r, p.routines[frame.routine]? = some r ∧
          (frame.slot < r.length ∨ r = [] ∧ frame.slot = 0) ∧
          (r.length < 2 ^ 64 → frame.slot + 1 < 2 ^ 64)) ∧
      (∀ f, EndsWith s p (.faulted f) ↔
        p.size = 0 ∧ s.goals.isEmpty = false ∧ f = .undeclared 0 0 ∨
          ∃ frame i target, TakesUp p s frame i ∧ i.operation = .call target ∧
            ¬ target < p.size ∧ f = .undeclared target p.size) ∧
      ∀ fuel h, run fuel s p = some h → ∃ events, trace fuel s p = some ⟨events, h⟩ ∧
        (∀ frame i, TakesUp p s frame i ↔ .taken frame i ∈ events) ∧
        (0 < p.size ∨ s.goals.isEmpty = true →
          (∀ frame i target, TakesUp p s frame i → i.operation = .call target → target < p.size) →
            ∃ o, h.ending = .finished o) := by
  refine ⟨fun hp n d hn frame hframe ↦ ?_, fun f ↦ endsWith_faulted_iff, fun fuel h hrun ↦ ?_⟩
  · have hstands := stands_of_after? hn (stands_start hp s)
    rcases hframe with hframe | hframe
    · exact (hstands frame hframe).exists_routine
    · exact (stands_step hstands frame hframe).exists_routine
  · obtain ⟨events, htrace⟩ := exists_trace_of_run hrun
    exact ⟨events, htrace, fun frame i ↦ (taken_mem_iff_of_trace htrace).symm,
      fun hstart hcalls ↦ exists_finished_of_run hstart hcalls hrun⟩

/-- A single tile of a color, on which there are the robot and a goal. -/
def oneTile (color : Color) : Scene where
  board := ⟨1, 1, #[some color], rfl⟩
  robot := ⟨⟨0, 0⟩, .north⟩
  goals := .ofList [⟨0, 0⟩]

/-- Runs a routine without slots; before and after that it calls, on tiles of some colors only,
routines that do not exist. -/
def guardedStrayCalls : Program :=
  ⟨[[some ⟨.call 8, some .green⟩, some ⟨.call 1, none⟩, some ⟨.call 7, some .blue⟩,
    some ⟨.call 6, some .blue⟩], []]⟩

/-- On a blue tile the run skips the first of the calls and ends with the second, so that it does
not come to the third. On a red tile it skips all of them. -/
theorem endsWith_faulted_oneTile :
    (0 < guardedStrayCalls.size ∧
      (∃ d, after? guardedStrayCalls (Config.start (oneTile .blue)) 2 = some d ∧
        d.stack = [⟨1, 0⟩, ⟨0, 2⟩] ∧ ∃ r, guardedStrayCalls.routines[1]? = some r ∧
          (0 < r.length ∨ r = [] ∧ 0 = 0) ∧ 0 + 1 < 2 ^ 64) ∧
      TakesUp guardedStrayCalls (oneTile .blue) ⟨0, 2⟩ ⟨.call 7, some .blue⟩ ∧
        EndsWith (oneTile .blue) guardedStrayCalls (.faulted (.undeclared 7 2))) ∧
      EndsWith (oneTile .blue) ⟨[]⟩ (.faulted (.undeclared 0 0)) ∧
      ∃ h events, run 6 (oneTile .red) guardedStrayCalls = some h ∧
        trace 6 (oneTile .red) guardedStrayCalls = some ⟨events, h⟩ ∧
          .taken ⟨0, 1⟩ ⟨.call 1, none⟩ ∈ events ∧ ∃ o, h.ending = .finished o := by
  have hp : 0 < guardedStrayCalls.size := by decide
  obtain ⟨hframes, hblue, -⟩ := endsWith_faulted_iff_takesUp (oneTile .blue) guardedStrayCalls
  obtain ⟨-, hwithout, -⟩ := endsWith_faulted_iff_takesUp (oneTile .blue) ⟨[]⟩
  obtain ⟨-, -, hred⟩ := endsWith_faulted_iff_takesUp (oneTile .red) guardedStrayCalls
  have hframe : ∃ d, after? guardedStrayCalls (Config.start (oneTile .blue)) 2 = some d ∧
      d.stack = [⟨1, 0⟩, ⟨0, 2⟩] ∧ ∃ r, guardedStrayCalls.routines[1]? = some r ∧
        (0 < r.length ∨ r = [] ∧ 0 = 0) ∧ 0 + 1 < 2 ^ 64 := by
    obtain ⟨r, hr, hslot, hnext⟩ := hframes hp 2 _ rfl ⟨1, 0⟩ (Or.inl List.mem_cons_self)
    obtain rfl : [] = r := Option.some.inj hr
    exact ⟨_, rfl, rfl, _, hr, hslot, hnext (by decide)⟩
  have htakes : TakesUp guardedStrayCalls (oneTile .blue) ⟨0, 2⟩ ⟨.call 7, some .blue⟩ :=
    ⟨3, _, _, rfl, fresh_of_nodup (by decide), .intro rfl rfl rfl (by decide)⟩
  have hfault := (hblue _).2 (Or.inr ⟨_, _, 7, htakes, rfl, by decide, rfl⟩)
  have hhalts : HaltsAt guardedStrayCalls (Config.start (oneTile .red)) 5
      ⟨.finished .exhausted, oneTile .red⟩ := ⟨_, rfl, rfl, rfl⟩
  have hrun := run_of_haltsAt_of_nodup hhalts (by decide)
  -- on a red tile the only instruction that is taken up calls the routine without slots
  have hcalls : ∀ frame i target, TakesUp guardedStrayCalls (oneTile .red) frame i →
      i.operation = .call target → target < guardedStrayCalls.size := by
    rintro frame i target ⟨n, d, stack, hn, -, htakes⟩ hcall
    have hvisits : visits guardedStrayCalls (Config.start (oneTile .red)) 6 =
        [.skipped ⟨0, 0⟩ ⟨.call 8, some .green⟩, .taken ⟨0, 1⟩ ⟨.call 1, none⟩,
          .skipped ⟨0, 2⟩ ⟨.call 7, some .blue⟩, .skipped ⟨0, 3⟩ ⟨.call 6, some .blue⟩] := by
      decide
    have hmem : .taken frame i ∈ visits guardedStrayCalls (Config.start (oneTile .red)) 6 :=
      List.mem_filterMap.2 ⟨n, List.mem_range.2 (Nat.lt_succ_of_le (le_of_haltsAt hhalts hn)),
        by rw [hn, Option.bind_some, htakes.visit?_eq]⟩
    rw [hvisits] at hmem
    obtain ⟨-, rfl⟩ : frame = ⟨0, 1⟩ ∧ i = ⟨.call 1, none⟩ := by simpa using hmem
    obtain rfl : 1 = target := Operation.call.inj hcall
    decide
  obtain ⟨events, htrace, htaken, hfinished⟩ := hred 6 _ hrun
  exact ⟨⟨hp, hframe, htakes, hfault⟩, (hwithout _).2 (Or.inl ⟨rfl, rfl, rfl⟩), _, events, hrun,
    htrace, (htaken _ _).1
      ⟨1, _, _, rfl, fresh_of_nodup (by decide), .intro rfl rfl rfl (by decide)⟩,
    hfinished (Or.inl hp) hcalls⟩

end TileRobot.Machine
