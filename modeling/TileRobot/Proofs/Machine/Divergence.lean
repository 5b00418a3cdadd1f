import Mathlib.Data.Finite.Prod
import Mathlib.Data.Set.Finite.List
import Mathlib.Order.Interval.Finset.Nat
import TileRobot.Proofs.Board.Passable
import TileRobot.Proofs.Machine.Invariant
import TileRobot.Proofs.Machine.Repetition

/-!
# When the machine runs for ever

The machine has only finitely many scenes and frames at its disposal, but its stack may grow. So it
runs for ever exactly if it *returns* (`Return`): the scene and the top frame of some step come back
later, and in between the frames under that top frame were not reached (`runsForever_start_iff`).

* A return can be repeated, over the frames that it left behind (`after?_mul`).
* If the machine runs for ever, its stack is as low as it will ever be again at infinitely many
  steps (`exists_floor`), and at two of these the scene and the top frame agree.
-/

namespace TileRobot

/-! ### There are finitely many scenes and frames -/

instance : Finite Color :=
  Set.finite_univ_iff.1 ((List.finite_toSet Color.all).subset fun c _ ↦ Color.mem_all c)

instance : Finite Heading :=
  Set.finite_univ_iff.1 ((List.finite_toSet Heading.all).subset fun h _ ↦ Heading.mem_all h)

theorem Board.finite_setOf_passable (b : Board) : {q | b.Passable q}.Finite :=
  b.passables.finite_toSet.subset fun _ ↦ mem_passables.2

/-- What a scene is made of, its board given by the list of its tiles. -/
def Scene.parts (s : Scene) : List Tile × Position × Heading × List Position :=
  (s.board.tiles.toList, s.robot.position, s.robot.heading, s.goals.toList)

theorem Scene.eq_of_parts_eq {s t u : Scene} (ht : t.Follows s) (hu : u.Follows s)
    (h : t.parts = u.parts) : t = u := by
  obtain ⟨htiles, hposition, hheading, hgoals⟩ : _ ∧ _ ∧ _ ∧ _ := by
    simpa only [Scene.parts, Prod.mk.injEq] using h
  refine Scene.ext ?_ (Robot.ext hposition hheading) (Goals.ext fun q ↦ ?_)
  · exact Board.ext (ht.width.trans hu.width.symm) (ht.height.trans hu.height.symm)
      (Array.ext' htiles)
  · rw [← Goals.mem_toList, hgoals, Goals.mem_toList]

/-- Only finitely many scenes can come after a scene. -/
theorem Scene.finite_setOf_follows (s : Scene) : {t : Scene | t.Follows s}.Finite := by
  have htiles := List.finite_length_eq Tile (s.board.height * s.board.width)
  have hposition := (s.board.finite_setOf_passable).insert s.robot.position
  have hgoals := List.finite_toSet s.goals.toList.sublists
  have hparts := htiles.prod (hposition.prod ((Set.finite_univ (α := Heading)).prod hgoals))
  refine Set.Finite.of_injOn (f := Scene.parts) ?_
    (fun t ht u hu h ↦ Scene.eq_of_parts_eq ht hu h) hparts
  intro t ht
  refine ⟨?_, ht.position, Set.mem_univ _, List.mem_sublists.2 ht.goals⟩
  show t.board.tiles.size = _
  rw [t.board.size_tiles, ht.height, ht.width]

namespace Machine

variable {p : Program} {c d : Config} {i j k m n : Nat}

/-- Only finitely many frames stand in a program. -/
theorem finite_setOf_stands (p : Program) : {frame : Frame | frame.Stands p}.Finite :=
  (frames p).finite_toSet.subset fun _ ↦ mem_frames.2

/-! ### Returning -/

/-- The scene and the top frame of step `i` come back at step `j`, and in between the frames under
that top frame were not reached. -/
def Return (p : Program) (c : Config) (i j : Nat) : Prop :=
  i < j ∧ ∃ s frame below above, after? p c i = some ⟨s, frame :: below⟩ ∧
    after? p c j = some ⟨s, frame :: (above ++ below)⟩ ∧
      ∀ k, i ≤ k → k < j → ∀ d, after? p c k = some d → Above below d

/-- **A round can be repeated**: each is made over the frames that the rounds before it left
behind. -/
theorem after?_mul {s : Scene} {top above : List Frame}
    (hround : after? p ⟨s, top⟩ m = some ⟨s, top ++ above⟩) (below : List Frame) (n : Nat) :
    after? p ⟨s, top ++ below⟩ (n * m) =
      some ⟨s, top ++ ((List.replicate n above).flatten ++ below)⟩ := by
  induction n generalizing below with
  | zero => rw [Nat.zero_mul, after?_zero, List.replicate_zero, List.flatten_nil, List.nil_append]
  | succ n ih =>
    -- after one round there are more frames below
    have hover : after? p ⟨s, top ++ below⟩ m = some ⟨s, top ++ (above ++ below)⟩ := by
      rw [← List.append_assoc]
      exact after?_over hround below
    rw [Nat.succ_mul, Nat.add_comm, after?_add_of_eq_some hover, ih (above ++ below),
      List.replicate_succ', List.flatten_concat, List.append_assoc]

theorem runsForever_of_pump {s : Scene} {top above : List Frame} (hm : 0 < m)
    (hround : after? p ⟨s, top⟩ m = some ⟨s, top ++ above⟩) (below : List Frame) :
    RunsForever p ⟨s, top ++ below⟩ := by
  intro n
  obtain ⟨d, hd, -⟩ :=
    exists_after?_of_le (Nat.le_mul_of_pos_right n hm) (after?_mul hround below n)
  exact ⟨d, hd⟩

theorem Return.runsForever (hr : Return p c i j) : RunsForever p c := by
  obtain ⟨hlt, s, frame, below, above, hi, hj, hcovered⟩ := hr
  have hi' : after? p c i = some ⟨s, [frame] ++ below⟩ := hi
  obtain ⟨above', hstack, hcut⟩ := exists_after?_of_above hlt.le hi' hj hcovered
  obtain rfl : frame :: above = above' := List.append_cancel_right hstack
  exact (runsForever_iff_of_after? hi').2
    (runsForever_of_pump (show 0 < j - i by omega) hcut below)

/-! ### Steps at which the stack is low -/

/-- Frames are left alone as long as the stack is higher than they are. -/
theorem above_of_lt_length {s : Scene} {top below : List Frame}
    (hi : after? p c i = some ⟨s, top ++ below⟩)
    (hlow : ∀ k, i ≤ k → ∀ e, after? p c k = some e → below.length < e.stack.length) (hik : i ≤ k)
    (hk : after? p c k = some d) : Above below d := by
  induction k, hik using Nat.le_induction generalizing d with
  | base =>
    obtain rfl := Option.some.inj (hi.symm.trans hk)
    refine ⟨top, ?_, rfl⟩
    rintro rfl
    exact (hlow i le_rfl _ hi).ne rfl
  | succ k hik ih =>
    obtain ⟨e, he, hnext⟩ := exists_next?_of_after?_succ hk
    rcases above_or_eq_of_next? (ih he) hnext with habove | hstack
    · exact habove
    · have hlt := hlow (k + 1) (Nat.le_succ_of_le hik) d hk
      rw [hstack] at hlt
      exact absurd hlt (Nat.lt_irrefl _)

/-- If the machine runs for ever, its stack is lowest at some of the steps from a given one on. -/
theorem exists_lowest (hrun : RunsForever p c) (i : Nat) :
    ∃ k d, i ≤ k ∧ after? p c k = some d ∧
      ∀ l, i ≤ l → ∀ e, after? p c l = some e → d.stack.length ≤ e.stack.length := by
  classical
  obtain ⟨d, hi⟩ := hrun i
  have hheights : ∃ height k e, i ≤ k ∧ after? p c k = some e ∧ e.stack.length = height :=
    ⟨d.stack.length, i, d, le_rfl, hi, rfl⟩
  obtain ⟨k, e, hik, hk, hheight⟩ := Nat.find_spec hheights
  exact ⟨k, e, hik, hk, fun l hl f hf ↦
    hheight.trans_le (Nat.find_min' hheights ⟨l, f, hl, hf, rfl⟩)⟩

/-- The stack is never lower again than at step `i`. -/
def Floor (p : Program) (c : Config) (i : Nat) : Prop :=
  ∀ k, i ≤ k → ∀ d e, after? p c i = some d → after? p c k = some e →
    d.stack.length ≤ e.stack.length

theorem exists_floor (hrun : RunsForever p c) (n : Nat) : ∃ i, n ≤ i ∧ Floor p c i := by
  obtain ⟨i, d, hni, hi, hlow⟩ := exists_lowest hrun n
  refine ⟨i, hni, fun k hik d' e hd' he ↦ ?_⟩
  obtain rfl : d = d' := Option.some.inj (hi.symm.trans hd')
  exact hlow k (hni.trans hik) e he

/-- From such a step on, the frames under the top frame are not reached. -/
theorem Floor.above {s : Scene} {frame : Frame} {below : List Frame} (hfloor : Floor p c i)
    (hi : after? p c i = some ⟨s, frame :: below⟩) (hik : i ≤ k) (hk : after? p c k = some d) :
    Above below d := by
  have hi' : after? p c i = some ⟨s, [frame] ++ below⟩ := hi
  exact above_of_lt_length hi' (fun l hl e he ↦ hfloor l hl _ e hi he) hik hk

/-- **A machine that runs for ever returns**: of the steps at which the stack is low there are
infinitely many, but there are only finitely many scenes and frames. -/
theorem exists_return (hc : c.Stands p) (hrun : RunsForever p c) : ∃ i j, Return p c i j := by
  -- the path with its stacks taken apart, for there is a frame to be run at every step
  choose path hpath using id hrun
  have hstack : ∀ n, ∃ frame below, (path n).stack = frame :: below := fun n ↦ by
    obtain ⟨e, he, hnext⟩ := exists_next?_of_after?_succ (hpath (n + 1))
    obtain rfl : path n = e := Option.some.inj ((hpath n).symm.trans he)
    exact List.exists_cons_of_ne_nil (stack_ne_nil_of_next? hnext)
  choose top below hstack using hstack
  have hconfig : ∀ n, after? p c n = some ⟨(path n).scene, top n :: below n⟩ := fun n ↦ by
    rw [hpath n, ← hstack n]
  have hinfinite : {i | Floor p c i}.Infinite := Set.infinite_of_forall_exists_gt fun n ↦ by
    obtain ⟨i, hi, hfloor⟩ := exists_floor hrun (n + 1)
    exact ⟨i, hfloor, hi⟩
  have hmaps : Set.MapsTo (fun n ↦ ((path n).scene, top n)) {i | Floor p c i}
      ({t | t.Follows c.scene} ×ˢ {frame | frame.Stands p}) := fun n _ ↦
    ⟨follows_of_after? (hpath n), stands_of_after? (hconfig n) hc (top n) List.mem_cons_self⟩
  obtain ⟨i, hi, j, hj, hne, heq⟩ := hinfinite.exists_ne_map_eq_of_mapsTo hmaps
    (c.scene.finite_setOf_follows.prod (finite_setOf_stands p))
  -- the scene and the top frame are those of an earlier step
  wlog hlt : i < j generalizing i j
  · exact this j hj i hi hne.symm heq.symm (show j < i by omega)
  obtain ⟨hscene, htop⟩ := Prod.mk.inj heq
  obtain ⟨above, hnil, habove⟩ := Floor.above hi (hconfig i) hlt.le (hconfig j)
  obtain ⟨frame, above, rfl⟩ := List.exists_cons_of_ne_nil hnil
  obtain ⟨rfl, hbelow⟩ : top j = frame ∧ below j = above ++ below i := List.cons.inj habove
  refine ⟨i, j, hlt, (path i).scene, top i, below i, above, hconfig i, ?_, ?_⟩
  · rw [hconfig j, hbelow, hscene, htop]
  · exact fun k hik _ d hd ↦ Floor.above hi (hconfig i) hik hd

variable {s : Scene}

/-- **The machine runs for ever exactly if it returns.** -/
theorem runsForever_start_iff :
    RunsForever p (Config.start s) ↔ ∃ i j, Return p (Config.start s) i j := by
  constructor
  · intro hrun
    -- a first step is made, so there is a first routine
    obtain ⟨d, hd⟩ := hrun 1
    exact exists_return (stands_start (size_pos_of_next? hd) s) hrun
  · rintro ⟨i, j, hreturn⟩
    exact hreturn.runsForever

/-! ### A machine that halts -/

/-- Two blue tiles, the robot on the western one facing east, the goal on the eastern one. -/
def twoTiles : Scene where
  board := ⟨2, 1, #[some .blue, some .blue], rfl⟩
  robot := ⟨⟨0, 0⟩, .east⟩
  goals := .ofList [⟨0, 1⟩]

/-- Calls a routine without slots twice and then moves. -/
def callTwice : Program :=
  ⟨[[some ⟨.call 1, none⟩, some ⟨.call 1, none⟩, some ⟨.forward, none⟩], []]⟩

/-- The routine without slots is entered twice with the same scene. That is no return, since the
frame of its caller was reached in between. -/
theorem halts_callTwice : Halts callTwice (Config.start twoTiles)
    ⟨.finished .solved, twoTiles.enter ⟨0, 1⟩⟩ :=
  ⟨4, ⟨twoTiles, [⟨0, 2⟩]⟩, rfl, rfl, rfl⟩

end Machine

end TileRobot
