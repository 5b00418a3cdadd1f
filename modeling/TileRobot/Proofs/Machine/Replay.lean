import TileRobot.Proofs.Machine.Divergence
import TileRobot.Proofs.Machine.Painting

/-!
# Loops that are repeated

What the watch for loops has found is a loop if the frames that were reached since it began are on
top again (`Restores`), so in particular if those that were left to run then have been left alone
since (`Untouched`). Then the steps of the loop were made without the frames further below, so they
can be made again with more of these. They can also be made again with fewer goals, as long as those
are missing that were collected on the way (`after?_withGoals`), and no tile has changed its color.
So the loop is a round (`Round`) that is made for ever with the goals of its end
(`goesRound_of_untouched`), whatever frames it leaves behind.

A program that calls in the last slots of its routines only has no frames under the top at all
(`length_stack_le_one`), so each loop that is found is one.
-/

namespace TileRobot

/-- All calls are in the last slots of their routines. -/
def Program.CallsLast (p : Program) : Prop :=
  ∀ r ∈ p.routines, ∀ k < r.length, ∀ i ∈ r.instruction? k, i.target?.isSome → k + 1 = r.length

instance (p : Program) : Decidable p.CallsLast :=
  inferInstanceAs (Decidable (∀ r ∈ p.routines, ∀ k < r.length, ∀ i ∈ r.instruction? k,
    i.target?.isSome → k + 1 = r.length))

/-- The scene with other goals. -/
def Scene.withGoals (s : Scene) (g : Goals) : Scene := { s with goals := g }

/-- Where there is no goal, entering takes none away. -/
theorem Scene.enter_withGoals {s : Scene} {g : Goals} {q : Position} (hq : q ∉ g) :
    (s.withGoals g).enter q = (s.enter q).withGoals g := by
  simp only [withGoals, enter, Goals.erase_eq_self hq]

namespace Machine

variable {p : Program} {c d e : Config} {s t : Scene} {g : Goals} {frame : Frame}
  {top above below : List Frame} {i j k m n : Nat}

/-! ### Paths with fewer goals -/

theorem Acts.withGoals {declared : Nat} {o : Operation} {b : Bool} {pushed : List Frame}
    (ha : Acts declared s o b t pushed) (hg : g.isEmpty = false) (hsub : ∀ q ∈ g, q ∈ t.goals) :
    Acts declared (s.withGoals g) o b (t.withGoals g) pushed := by
  rcases ha with ⟨hahead, -⟩ | - | - | color | hcalled
  case forward =>
    -- the goals are among those that the move leaves, so it takes none of them away
    have henter := Scene.enter_withGoals (s := s) fun hmem : s.robot.ahead ∈ g ↦
      (Goals.mem_erase.1 (hsub s.robot.ahead hmem)).2 rfl
    rw [← henter]
    refine .forward hahead ?_
    rw [show (s.withGoals g).robot.ahead = s.robot.ahead from rfl, henter]
    exact hg
  case left => exact .left
  case right => exact .right
  case paint => exact .paint color
  case call => exact .call hcalled

theorem next?_withGoals (hnext : next? p c = some d) (hg : g.isEmpty = false)
    (hsub : ∀ q ∈ g, q ∈ d.scene.goals) :
    next? p ⟨c.scene.withGoals g, c.stack⟩ = some ⟨d.scene.withGoals g, d.stack⟩ := by
  obtain ⟨b, -, hgoes⟩ := exists_goes_of_next? hnext
  have hgoes' : Goes p ⟨c.scene.withGoals g, c.stack⟩ b ⟨d.scene.withGoals g, d.stack⟩ := by
    rcases hgoes with ⟨htop, hidle⟩ | ⟨htop, hfilled, hguard, hacts⟩
    · exact .passed htop hidle
    · exact .acted htop hfilled hguard (hacts.withGoals hg hsub)
  exact (goes_iff.2 ⟨hg, hgoes'⟩).1

/-- **A path can be followed with goals that it leaves to its end.** -/
theorem after?_withGoals (hn : after? p c n = some d) (hg : g.isEmpty = false)
    (hsub : ∀ q ∈ g, q ∈ d.scene.goals) :
    after? p ⟨c.scene.withGoals g, c.stack⟩ n = some ⟨d.scene.withGoals g, d.stack⟩ := by
  induction n generalizing d with
  | zero =>
    obtain rfl : c = d := Option.some.inj hn
    rfl
  | succ n ih =>
    obtain ⟨e, he, hnext⟩ := exists_next?_of_after?_succ hn
    have hmid := ih he fun q hq ↦ (follows_of_next? hnext).goals.subset (hsub q hq)
    rw [after?_succ_of_eq_some hmid]
    exact next?_withGoals hnext hg hsub

/-! ### Boards without change -/

theorem Acts.board_eq {declared : Nat} {o : Operation} {b : Bool} {pushed : List Frame}
    (ha : Acts declared s o b t pushed) (hb : b = false) : t.board = s.board := by
  rcases ha with - | - | - | color | -
  case paint => exact Board.repaint_of_not_repaints (of_decide_eq_false hb)
  all_goals rfl

theorem board_eq_of_next? (hnext : next? p c = some d) (hc : (step p c).repainted = false) :
    d.scene.board = c.scene.board := by
  obtain ⟨b, hb, - | ⟨-, -, -, hacts⟩⟩ := exists_goes_of_next? hnext
  · rfl
  · exact hacts.board_eq (hb.symm.trans hc)

/-- As long as no tile changes its color, the board is the same. -/
theorem Quiet.board_eq (hquiet : Quiet p c i j) (hij : i ≤ j) (hi : after? p c i = some d)
    (hj : after? p c j = some e) : e.scene.board = d.scene.board := by
  induction j, hij using Nat.le_induction generalizing e with
  | base =>
    obtain rfl : d = e := Option.some.inj (hi.symm.trans hj)
    rfl
  | succ j hij ih =>
    obtain ⟨f, hf, hnext⟩ := exists_next?_of_after?_succ hj
    rw [board_eq_of_next? hnext (hquiet j hij (Nat.lt_succ_self j) f hf)]
    exact ih (hquiet.mono le_rfl (Nat.le_succ j)) hf

/-! ### Rounds -/

/-- In so many steps the machine comes back from some frames to the same frames, board and robot. It
needs no other frames for that; the goals `g` are left, and so are some frames. -/
structure Round (p : Program) (s : Scene) (g : Goals) (top above : List Frame) (m : Nat) : Prop
    where
  /-- It makes a step. -/
  pos : 0 < m
  /-- There are goals left. -/
  goals : g.isEmpty = false
  /-- It comes back. -/
  path : after? p ⟨s, top⟩ m = some ⟨s.withGoals g, top ++ above⟩

/-- With the goals that are left at its end a round can be made again, for ever. -/
theorem Round.after?_mul (hround : Round p s g top above m) (below : List Frame) (n : Nat) :
    after? p ⟨s.withGoals g, top ++ below⟩ (n * m) =
      some ⟨s.withGoals g, top ++ ((List.replicate n above).flatten ++ below)⟩ :=
  Machine.after?_mul (after?_withGoals hround.path hround.goals fun _ hq ↦ hq) below n

/-- **In all rounds the same happens at the same place**, but goals are collected in the first round
only. -/
theorem Round.exists_after? (hround : Round p s g top above m)
    (hi : after? p c i = some ⟨s, top ++ below⟩) (hk : k < m) :
    ∃ (t : Scene) (stack : List Frame), stack ≠ [] ∧
      ∀ n, ∃ d u, after? p c (i + n * m + k) = some d ∧ d.scene = t.withGoals u ∧
        d.stack.head? = stack.head? ∧ (0 < n → u = g) := by
  obtain ⟨⟨t, stack⟩, ht, hrest⟩ := exists_after?_of_le hk.le hround.path
  have hne : stack ≠ [] := by
    obtain ⟨e', -, hnext⟩ := exists_next?_of_lt hk ht hround.path
    exact stack_ne_nil_of_next? hnext
  have hagain : after? p ⟨s.withGoals g, top⟩ k = some ⟨t.withGoals g, stack⟩ :=
    after?_withGoals ht hround.goals (follows_of_after? hrest).goals.subset
  refine ⟨t, stack, hne, fun n ↦ ?_⟩
  rcases n with - | n
  · rw [Nat.zero_mul, Nat.add_zero, after?_add_of_eq_some hi]
    exact ⟨_, t.goals, after?_over ht below, rfl, List.head?_append_of_ne_nil _ hne,
      fun hpos ↦ absurd hpos (Nat.lt_irrefl 0)⟩
  · have hfirst : after? p c (i + m) = some ⟨s.withGoals g, top ++ (above ++ below)⟩ := by
      rw [after?_add_of_eq_some hi, ← List.append_assoc]
      exact after?_over hround.path below
    have hrounds := after?_trans hfirst (hround.after?_mul (above ++ below) n)
    rw [show i + (n + 1) * m = i + m + n * m by rw [Nat.succ_mul]; omega,
      after?_add_of_eq_some hrounds]
    exact ⟨_, g, after?_over hagain _, rfl, List.head?_append_of_ne_nil _ hne, fun _ ↦ rfl⟩

/-! ### Loops whose frames come back -/

/-- From step `i` to step `j`, there are always frames to be run before those that were under the
top at step `i`. -/
def Untouched (p : Program) (c : Config) (i j : Nat) : Prop :=
  ∀ d, after? p c i = some d → ∀ k, i ≤ k → k ≤ j → ∀ e, after? p c k = some e →
    Above d.stack.tail e

/-- The frames on top at step `i` are on top again at step `j`, and from the one step to the other
there are always frames to be run before those that lay under them. -/
def Restores (p : Program) (c : Config) (i j : Nat) : Prop :=
  ∃ d e top above below, after? p c i = some d ∧ after? p c j = some e ∧
    d.stack = top ++ below ∧ e.stack = top ++ (above ++ below) ∧
      ∀ k, i ≤ k → k ≤ j → ∀ f, after? p c k = some f → Above below f

/-- If the older frames were left alone, the top frame is the only one that has to come back. -/
theorem Repetition.restores (hrep : Repetition p c i j) (hun : Untouched p c i j) :
    Restores p c i j := by
  obtain ⟨hlt, ⟨d, e, f, hi, hj, hdf, hef⟩, -⟩ := hrep
  obtain ⟨⟨below, hd⟩, -⟩ := fingerprint?_eq_some_iff.1 hdf
  obtain ⟨⟨below', he⟩, -⟩ := fingerprint?_eq_some_iff.1 hef
  have htail : d.stack.tail = below := by rw [hd, List.tail_cons]
  have habove := hun d hi
  rw [htail] at habove
  obtain ⟨above, hne, hstack⟩ := habove j hlt.le le_rfl e hj
  obtain ⟨top, above, rfl⟩ := List.exists_cons_of_ne_nil hne
  obtain ⟨rfl, -⟩ := List.cons.inj (he.symm.trans hstack)
  exact ⟨d, e, [f.frame], above, below, hi, hj, hd, hstack, habove⟩

/-- **A loop whose frames come back is a round.** -/
theorem Repetition.exists_round (hrep : Repetition p c i j) (hres : Restores p c i j) :
    ∃ s g top above below, after? p c i = some ⟨s, top ++ below⟩ ∧
      Round p s g top above (j - i) := by
  obtain ⟨hlt, ⟨⟨s, stack⟩, ⟨t, stack'⟩, f, hi, hj, hdf, hef⟩, hquiet⟩ := hrep
  obtain ⟨-, -, hrobot⟩ := fingerprint?_eq_some_iff.1 hdf
  obtain ⟨-, hgoals, hrobot'⟩ := fingerprint?_eq_some_iff.1 hef
  obtain ⟨d, e, top, above, below, hd, he, hstack, hstack', habove⟩ := hres
  obtain rfl := Option.some.inj (hi.symm.trans hd)
  obtain rfl := Option.some.inj (hj.symm.trans he)
  obtain rfl : stack = top ++ below := hstack
  -- the steps from `i` to `j` are made without the frames below
  obtain ⟨above', hcover, hcut⟩ :=
    exists_after?_of_above hlt.le hi hj fun k hik hkj ↦ habove k hik hkj.le
  obtain rfl : above' = top ++ above := by
    rw [hstack', ← List.append_assoc] at hcover
    exact (List.append_cancel_right hcover).symm
  have hscene : t = s.withGoals t.goals :=
    Scene.ext (hquiet.board_eq hlt.le hi hj) (hrobot'.trans hrobot.symm) rfl
  rw [hscene] at hcut
  exact ⟨s, t.goals, top, above, below, hi, Nat.sub_pos_of_lt hlt, hgoals, hcut⟩

/-- The machine goes round for ever: from step `i` on what happens in each `j - i` steps is what
happened in the `j - i` steps before. -/
structure GoesRound (p : Program) (c : Config) (i j : Nat) : Prop where
  /-- The machine never halts. -/
  forever : ∀ h, ¬ Halts p c h
  /-- The board, the robot and the top frame are the same again at each step of a round. -/
  round : ∀ k, i ≤ k → ∃ d e, after? p c k = some d ∧ after? p c (k + (j - i)) = some e ∧
    e.scene.board = d.scene.board ∧ e.scene.robot = d.scene.robot ∧ e.stack.head? = d.stack.head?
  /-- After the first round no goal is collected. -/
  goals : ∀ k, j ≤ k → ∀ d e, after? p c j = some d → after? p c k = some e →
    e.scene.goals = d.scene.goals
  /-- After the first round each step does what it did a round before. -/
  events : ∀ k, j ≤ k → ∀ d e, after? p c k = some d → after? p c (k + (j - i)) = some e →
    (step p e).events = (step p d).events

/-- What a step does depends on the scene and on the top frame. -/
theorem events_step_eq {stack stack' : List Frame} (hne : stack ≠ [])
    (hhead : stack'.head? = stack.head?) :
    (step p ⟨s, stack'⟩).events = (step p ⟨s, stack⟩).events := by
  have hcut : ∀ frame below,
      (step p ⟨s, [frame] ++ below⟩).events = (step p ⟨s, [frame]⟩).events := fun frame below ↦ by
    rw [step_append p s (List.cons_ne_nil frame []) below]
    rfl
  obtain ⟨frame, below, rfl⟩ := List.exists_cons_of_ne_nil hne
  rw [List.head?_cons] at hhead
  obtain ⟨below', rfl⟩ := List.head?_eq_some_iff.1 hhead
  exact (hcut frame below').trans (hcut frame below).symm

/-- At the same place of the next round, the machine has the same board, robot and top frame. -/
theorem Round.exists_next (hround : Round p s g top above (j - i))
    (hi : after? p c i = some ⟨s, top ++ below⟩) (hk : i ≤ k) :
    ∃ d e, after? p c k = some d ∧ after? p c (k + (j - i)) = some e ∧ d.stack ≠ [] ∧
      e.stack.head? = d.stack.head? ∧ e.scene = d.scene.withGoals g ∧
        (j ≤ k → d.scene.goals = g) := by
  -- the step is one of a round, and the rounds are counted from zero
  obtain ⟨n, l, hl, rfl⟩ : ∃ n l, l < j - i ∧ k = i + n * (j - i) + l := by
    have hplace := Nat.div_add_mod' (k - i) (j - i)
    exact ⟨(k - i) / (j - i), (k - i) % (j - i), Nat.mod_lt _ hround.pos, by omega⟩
  have hnext : i + (n + 1) * (j - i) + l = i + n * (j - i) + l + (j - i) := by
    rw [Nat.add_one_mul]
    omega
  obtain ⟨t, stack, hne, hsteps⟩ := hround.exists_after? hi hl
  obtain ⟨d, u, hd, hscene, hhead, hu⟩ := hsteps n
  obtain ⟨e, v, he, hscene', hhead', hv⟩ := hsteps (n + 1)
  rw [hnext] at he
  refine ⟨d, e, hd, he, ?_, hhead'.trans hhead.symm, ?_, fun hj ↦ ?_⟩
  · rintro hnil
    rw [hnil, List.head?_nil] at hhead
    exact hne (List.head?_eq_none_iff.1 hhead.symm)
  · rw [hscene, hscene', hv (Nat.succ_pos n)]
    rfl
  · have hpos : 0 < n := by
      by_contra hzero
      obtain rfl : n = 0 := Nat.eq_zero_of_not_pos hzero
      omega
    rw [hscene, hu hpos]
    rfl

/-- **A round is made for ever.** -/
theorem Round.goesRound (hround : Round p s g top above (j - i))
    (hi : after? p c i = some ⟨s, top ++ below⟩) : GoesRound p c i j where
  forever := by
    refine runsForever_iff.1 fun n ↦ ?_
    obtain ⟨d, e, hd, -⟩ := hround.exists_next hi (Nat.le_add_right i n)
    obtain ⟨d', hd', -⟩ := exists_after?_of_le (Nat.le_add_left n i) hd
    exact ⟨d', hd'⟩
  round k hk := by
    obtain ⟨d, e, hd, he, -, hhead, hscene, -⟩ := hround.exists_next hi hk
    exact ⟨d, e, hd, he, hscene ▸ rfl, hscene ▸ rfl, hhead⟩
  goals k hk d e hd he := by
    have hij : i ≤ j := (Nat.lt_of_sub_pos hround.pos).le
    have hgoals : ∀ l, j ≤ l → ∀ f, after? p c l = some f → f.scene.goals = g :=
      fun l hl f hf ↦ by
        obtain ⟨f', -, hf', -, -, -, -, hg⟩ := hround.exists_next hi (hij.trans hl)
        obtain rfl : f = f' := Option.some.inj (hf.symm.trans hf')
        exact hg hl
    rw [hgoals k hk e he, hgoals j le_rfl d hd]
  events k hk d e hd he := by
    have hij : i ≤ j := (Nat.lt_of_sub_pos hround.pos).le
    obtain ⟨d', e', hd', he', hne, hhead, hscene, hg⟩ := hround.exists_next hi (hij.trans hk)
    obtain rfl : d = d' := Option.some.inj (hd.symm.trans hd')
    obtain rfl : e = e' := Option.some.inj (he.symm.trans he')
    -- the goals are those of the round before, so the whole scene is
    have hsame : e.scene = d.scene := by
      rw [hscene, ← hg hk]
      rfl
    obtain ⟨t, stack⟩ := e
    obtain rfl : t = d.scene := hsame
    exact events_step_eq hne hhead

/-- **A loop whose frames come back is made for ever.** -/
theorem Repetition.goesRound_of_restores (hrep : Repetition p c i j) (hres : Restores p c i j) :
    GoesRound p c i j := by
  obtain ⟨s', g, top, above, below, hi, hround⟩ := hrep.exists_round hres
  exact hround.goesRound hi

/-! ### Programs that call last -/

theorem length_resume_nil_le (n : Nat) (frame : Frame) : (resume n frame []).length ≤ 1 := by
  simp only [resume]
  split
  · exact Nat.le_refl 1
  · exact Nat.zero_le 1

/-- A single frame is followed by at most one: the called routine comes in place of its caller. -/
theorem length_stack_le_one_of_next? (hp : p.CallsLast) (hnext : next? p ⟨s, [frame]⟩ = some d) :
    d.stack.length ≤ 1 := by
  obtain ⟨b, -, hgoes⟩ := exists_goes_of_next? hnext
  rcases hgoes with - | ⟨htop, hfilled, -, hacts⟩
  · exact length_resume_nil_le _ frame
  · rename_i pushed r i
    generalize ho : i.operation = o at hacts
    rcases hacts with - | - | - | - | -
    case call target =>
      have hslot : frame.slot < r.length :=
        (List.getElem?_eq_some_iff.1 (Option.join_eq_some_iff.1 hfilled)).1
      have hlast : frame.slot + 1 = r.length :=
        hp r (List.mem_of_getElem? htop) frame.slot hslot i hfilled
          (Option.isSome_of_eq_some (Instruction.target?_eq_some_iff.2 ho))
      rw [resume, if_neg (Nat.not_lt.2 hlast.ge)]
      exact Nat.le_refl 1
    all_goals exact length_resume_nil_le _ frame

/-- **A program that calls last leaves no frames behind.** -/
theorem length_stack_le_one (hp : p.CallsLast) (hn : after? p (Config.start s) n = some d) :
    d.stack.length ≤ 1 := by
  induction n generalizing d with
  | zero =>
    obtain rfl := Option.some.inj hn
    exact Nat.le_refl 1
  | succ n ih =>
    obtain ⟨⟨t, stack⟩, he, hnext⟩ := exists_next?_of_after?_succ hn
    obtain ⟨frame, below, rfl⟩ := List.exists_cons_of_ne_nil (stack_ne_nil_of_next? hnext)
    obtain rfl : below = [] :=
      List.eq_nil_of_length_eq_zero (Nat.le_zero.1 (Nat.le_of_succ_le_succ (ih he)))
    exact length_stack_le_one_of_next? hp hnext

theorem untouched_of_callsLast (hp : p.CallsLast) (hrep : Repetition p (Config.start s) i j) :
    Untouched p (Config.start s) i j := by
  obtain ⟨-, ⟨-, e, f, -, he, -, hef⟩, -⟩ := hrep
  intro d hd k hik hkj d' hd'
  have hne : d'.stack ≠ [] := by
    rcases Nat.eq_or_lt_of_le hkj with rfl | hlt
    · obtain rfl : d' = e := Option.some.inj (hd'.symm.trans he)
      obtain ⟨⟨below, hstack⟩, -⟩ := fingerprint?_eq_some_iff.1 hef
      rw [hstack]
      exact List.cons_ne_nil _ _
    · obtain ⟨e', -, hnext⟩ := exists_next?_of_lt hlt hd' he
      exact stack_ne_nil_of_next? hnext
  have htail : d.stack.tail = [] := by
    have hlength := length_stack_le_one hp hd
    refine List.eq_nil_of_length_eq_zero ?_
    rw [List.length_tail]
    omega
  exact ⟨d'.stack, hne, by rw [htail, List.append_nil]⟩

/-! ### Reports of loops -/

/-- **A report of a loop is right if the older frames were left alone.** A loop is reported exactly
if the fingerprint of a step `i` comes back at a step `j` with no change of color in between. If,
from step `i` to step `j`, there were always frames to be run before those that lay under the top at
step `i`, then the machine without the watch never halts: it goes through the same steps for ever,
and after the first round it collects no goal. In a program that calls in last slots only, the older
frames are always left alone. -/
theorem goesRound_of_untouched (s : Scene) (p : Program) :
    (EndsWith s p (.finished .loopDetected) ↔ ∃ i j, Repetition p (Config.start s) i j) ∧
      (∀ i j, Repetition p (Config.start s) i j → Untouched p (Config.start s) i j →
        GoesRound p (Config.start s) i j) ∧
      (p.CallsLast → ∀ i j, Repetition p (Config.start s) i j →
        Untouched p (Config.start s) i j) := by
  refine ⟨endsWith_loopDetected_iff, fun i j hrep hun ↦ ?_, fun hp i j ↦ untouched_of_callsLast hp⟩
  exact hrep.goesRound_of_restores (hrep.restores hun)

/-- Turns to the left, and starts over. -/
def spin : Program := ⟨[[some ⟨.left, none⟩, some ⟨.call 0, none⟩]]⟩

/-- Starts over, and would turn to the left afterwards. -/
def pileUp : Program := ⟨[[some ⟨.call 0, none⟩, some ⟨.left, none⟩]]⟩

/-- Without paints, a fingerprint that comes back makes a repetition. -/
theorem repetition_of_paintsWith_nil {f : Fingerprint} (hp : p.PaintsWith []) (hij : i < j)
    (hi : after? p c i = some d) (hj : after? p c j = some e) (hdf : d.fingerprint? = some f)
    (hef : e.fingerprint? = some f) : Repetition p c i j :=
  ⟨hij, ⟨d, e, f, hi, hj, hdf, hef⟩,
    (quiet_iff_not_repaintsAt hj).2 fun _ _ _ ↦ not_repaintsAt_of_paintsWith_nil hp⟩

/-- Two loops that are made for ever: one that leaves no frames behind, and one that leaves one more
in each round. -/
theorem goesRound_twoTiles :
    (spin.CallsLast ∧ Repetition spin (Config.start twoTiles) 0 8 ∧
        GoesRound spin (Config.start twoTiles) 0 8) ∧
      Repetition pileUp (Config.start twoTiles) 0 1 ∧
        Untouched pileUp (Config.start twoTiles) 0 1 ∧
          GoesRound pileUp (Config.start twoTiles) 0 1 := by
  have hlast : spin.CallsLast := by decide
  have hspin : Repetition spin (Config.start twoTiles) 0 8 :=
    repetition_of_paintsWith_nil (by decide) (by decide) rfl rfl rfl rfl
  have hpile : Repetition pileUp (Config.start twoTiles) 0 1 :=
    repetition_of_paintsWith_nil (by decide) (by decide) rfl rfl rfl rfl
  have huntouched : Untouched pileUp (Config.start twoTiles) 0 1 := by
    intro d hd k _ hk e he
    obtain rfl := Option.some.inj hd
    obtain rfl | rfl : k = 0 ∨ k = 1 := by omega
    all_goals
      obtain rfl := Option.some.inj he
      exact ⟨_, List.cons_ne_nil _ _, (List.append_nil _).symm⟩
  obtain ⟨-, hrounds, hcalls⟩ := goesRound_of_untouched twoTiles spin
  exact ⟨⟨hlast, hspin, hrounds 0 8 hspin (hcalls hlast 0 8 hspin)⟩, hpile, huntouched,
    (goesRound_of_untouched twoTiles pileUp).2.1 0 1 hpile huntouched⟩

end Machine

end TileRobot
