import Mathlib.Order.Interval.Finset.Nat
import TileRobot.Proofs.Machine.Divergence
import TileRobot.Proofs.Machine.Painting

/-!
# How long a run goes on

The stack may grow without limit, but the test for loops looks at its top frame only. The robot
stands where it started or on a passable position, it faces in one of four directions, and the top
frame stands in the program, so there are not many fingerprints (`mem_fingerprints_of_after?`,
`card_fingerprints_le`). As long as no tile changes its color, none of them passes the test twice.

* So many steps pass the test between two changes of a color, and no more (`card_le_quietBound`).
* A run that does not come to its end changes colors again and again
  (`infinite_setOf_repaintsAt`), and it may do so for ever (`run_flipFlop`).
* With one color only it cannot, since no tile is changed twice, and every run comes to its end
  (`exists_run_of_paintsWith`).
-/

namespace TileRobot.Machine

variable {s : Scene} {p : Program} {d : Config} {f : Fingerprint} {color : Color} {i m n : Nat}

/-! ### Fingerprints -/

/-- A routine without slots has one frame as well. -/
theorem length_frames (p : Program) :
    (frames p).length = (p.routines.map fun r ↦ max 1 r.length).sum := by
  have hlength : (fun r : Routine ↦ max 1 r.length) ∘ Prod.fst =
      fun entry : Routine × Nat ↦
        ((List.range (max 1 entry.1.length)).map (Frame.mk entry.2)).length :=
    funext fun _ ↦ by rw [List.length_map, List.length_range, Function.comp_apply]
  rw [frames, List.length_flatMap, ← hlength, ← List.map_map, List.zipIdx_map_fst]

example : (frames callTwice).length = 3 + 1 := by decide

/-- The fingerprints that can be taken on a scene in a program: the robot where it starts or on a
passable position, facing anywhere, and a frame that stands in the program. -/
def fingerprints (s : Scene) (p : Program) : Finset Fingerprint :=
  (insert s.robot.position s.board.passables ×ˢ Heading.all.toFinset ×ˢ (frames p).toFinset).image
    fun parts ↦ ⟨parts.1, parts.2.1, parts.2.2⟩

/-- Four headings for each passable position and for the one at the start, and so many frames. -/
def quietBound (s : Scene) (p : Program) : Nat :=
  4 * (s.board.passables.card + 1) * (p.routines.map fun r ↦ max 1 r.length).sum

theorem card_fingerprints_le (s : Scene) (p : Program) :
    (fingerprints s p).card ≤ quietBound s p := by
  have hpositions := Finset.card_insert_le s.robot.position s.board.passables
  have hheadings : Heading.all.toFinset.card = 4 := by decide
  have hframes := (frames p).toFinset_card_le
  calc (fingerprints s p).card
      ≤ (insert s.robot.position s.board.passables).card * (4 * (frames p).toFinset.card) := by
        rw [← hheadings, ← Finset.card_product, ← Finset.card_product]
        exact Finset.card_image_le
    _ ≤ (s.board.passables.card + 1) * (4 * (frames p).length) :=
        Nat.mul_le_mul hpositions (Nat.mul_le_mul_left 4 hframes)
    _ = quietBound s p := by rw [quietBound, length_frames, ← Nat.mul_assoc, Nat.mul_comm _ 4]

theorem mem_fingerprints : f ∈ fingerprints s p ↔
    (f.position = s.robot.position ∨ s.board.Passable f.position) ∧ f.frame.Stands p := by
  simp only [fingerprints, Finset.mem_image, Finset.mem_product, Finset.mem_insert,
    Board.mem_passables, List.mem_toFinset, mem_frames]
  constructor
  · rintro ⟨parts, ⟨hposition, -, hframe⟩, rfl⟩
    exact ⟨hposition, hframe⟩
  · rintro ⟨hposition, hframe⟩
    exact ⟨(f.position, f.heading, f.frame), ⟨hposition, Heading.mem_all f.heading, hframe⟩, rfl⟩

/-- **Every fingerprint on the path is one of these.** -/
theorem mem_fingerprints_of_after? (hp : 0 < p.size) (hn : after? p (Config.start s) n = some d)
    (hf : d.fingerprint? = some f) : f ∈ fingerprints s p := by
  obtain ⟨⟨below, hstack⟩, -, hrobot⟩ := fingerprint?_eq_some_iff.1 hf
  have hposition := (follows_of_after? hn).position
  rw [hrobot] at hposition
  have hframe : f.frame.Stands p :=
    stands_of_after? hn (stands_start hp s) f.frame (hstack ▸ List.mem_cons_self)
  exact mem_fingerprints.2 ⟨hposition, hframe⟩

/-! ### Steps that pass the test -/

/-- Step `n` of a run passes the test for loops: the machine comes to it with a frame to be run and
goals left, and up to and with this step no loop is reported. -/
structure Passes (s : Scene) (p : Program) (n : Nat) : Prop where
  /-- There is a fingerprint to be tested. -/
  tested : ∃ d f, after? p (Config.start s) n = some d ∧ d.fingerprint? = some f
  /-- The test has not found a loop. -/
  undetected : ∀ h, run (n + 1) s p = some h → h.ending ≠ .finished .loopDetected

theorem Passes.not_repetition (hn : Passes s p n) : ¬ Repetition p (Config.start s) i n := by
  intro hrep
  obtain ⟨d, -, hd, -⟩ := hn.tested
  have hdesc := describes_run (n + 1) s p
  rcases hrun : run (n + 1) s p with - | h <;> rw [hrun] at hdesc
  · exact hdesc.1 n (Nat.zero_le n) (by omega) i hrep
  · obtain ⟨j, hlt, -, ⟨-, hloop⟩ | ⟨hnot, hj⟩⟩ := hdesc
    · exact hn.undetected h hrun hloop
    · -- the machine comes to step `n`, so it has not halted before
      obtain rfl : n = j := Nat.le_antisymm (le_of_haltsAt hj hd) (by omega)
      exact hnot i hrep

/-- As long as a run has not come to its end, its steps pass the test. -/
theorem passes_of_run_eq_none (hrun : run m s p = none) (hlt : n < m) : Passes s p n := by
  have hdesc := describes_run m s p
  rw [hrun] at hdesc
  obtain ⟨-, e, he⟩ := hdesc
  rw [Nat.zero_add] at he
  obtain ⟨e', he', -⟩ := exists_after?_of_le (show n + 1 ≤ m from hlt) he
  obtain ⟨d, hd, hnext⟩ := exists_next?_of_after?_succ he'
  obtain ⟨f, hf⟩ := exists_fingerprint?_of_next? hnext
  refine ⟨⟨d, f, hd, hf⟩, fun h hsome ↦ ?_⟩
  have hrun' : run m s p = some h := runFrom_of_le (show n + 1 ≤ m from hlt) hsome
  rw [hrun] at hrun'
  contradiction

/-- **So many steps pass the test before a color is changed, and no more**: their fingerprints are
all different. -/
theorem card_le_quietBound (hp : 0 < p.size) {steps : Finset Nat}
    (hpasses : ∀ n ∈ steps, Passes s p n)
    (hquiet : ∀ i ∈ steps, ∀ j ∈ steps, Quiet p (Config.start s) i j) :
    steps.card ≤ quietBound s p := by
  refine le_trans ?_ (card_fingerprints_le s p)
  refine Finset.card_le_card_of_forall_subsingleton
    (fun n f ↦ ∃ d, after? p (Config.start s) n = some d ∧ d.fingerprint? = some f) ?_ ?_
  · intro n hn
    obtain ⟨d, f, hd, hf⟩ := (hpasses n hn).tested
    exact ⟨f, mem_fingerprints_of_after? hp hd hf, d, hd, hf⟩
  · rintro f - i ⟨hi, d, hd, hdf⟩ j ⟨hj, e, he, hef⟩
    -- otherwise the later of the two steps would end a repetition
    rcases Nat.lt_trichotomy i j with hlt | heq | hlt
    · exact absurd ⟨hlt, ⟨d, e, f, hd, he, hdf, hef⟩, hquiet i hi j hj⟩
        (hpasses j hj).not_repetition
    · exact heq
    · exact absurd ⟨hlt, ⟨e, d, f, he, hd, hef, hdf⟩, hquiet j hj i hi⟩
        (hpasses i hi).not_repetition

/-! ### Runs that do not come to an end -/

/-- A run that can make a step is one of a program with a routine. -/
theorem size_pos_of_run_eq_none (hrun : run 1 s p = none) : 0 < p.size := by
  obtain ⟨-, e, he⟩ : Describes p (Config.start s) 0 1 none := hrun ▸ describes_run 1 s p
  exact size_pos_of_next? he

/-- So many steps without a change of color are too many. -/
theorem exists_repaintsAt_of_run_eq_none (hp : 0 < p.size)
    (hrun : run (n + (quietBound s p + 1)) s p = none) :
    ∃ k, n ≤ k ∧ k < n + (quietBound s p + 1) ∧ RepaintsAt p (Config.start s) k := by
  by_contra hnone
  have hcard : (Finset.Ico n (n + (quietBound s p + 1))).card ≤ quietBound s p := by
    refine card_le_quietBound hp (fun k hk ↦ ?_) fun i hi j hj ↦ ?_
    · exact passes_of_run_eq_none hrun (Finset.mem_Ico.1 hk).2
    · obtain ⟨d, -, hd, -⟩ := (passes_of_run_eq_none hrun (Finset.mem_Ico.1 hj).2).tested
      refine (quiet_iff_not_repaintsAt hd).2 fun k hik hkj hk ↦ hnone ⟨k, ?_, ?_, hk⟩
      · exact (Finset.mem_Ico.1 hi).1.trans hik
      · exact hkj.trans (Finset.mem_Ico.1 hj).2
  rw [Nat.card_Ico, Nat.add_sub_cancel_left] at hcard
  omega

/-- **A run that does not come to its end changes colors again and again.** -/
theorem infinite_setOf_repaintsAt (hrun : ∀ fuel, run fuel s p = none) :
    {k | RepaintsAt p (Config.start s) k}.Infinite := by
  refine Set.infinite_of_forall_exists_gt fun n ↦ ?_
  obtain ⟨k, hk, -, hrepaints⟩ := exists_repaintsAt_of_run_eq_none (n := n + 1)
    (size_pos_of_run_eq_none (hrun 1)) (hrun _)
  exact ⟨k, hrepaints, hk⟩

/-- **Between two changes of a color a run makes a bounded number of steps.** Of the steps that pass
the test for loops, no more than the bound follow one another without a change of color before the
last of them. So a run that does not come to its end changes colors infinitely often, and without
paints a run comes to its end within one step more than the bound. -/
theorem run_bounded_between_repaints (s : Scene) (hp : 0 < p.size) :
    (∀ steps : Finset Nat, (∀ n ∈ steps, Passes s p n) →
        (∀ i ∈ steps, ∀ j ∈ steps, ∀ k, i ≤ k → k < j → ¬ RepaintsAt p (Config.start s) k) →
          steps.card ≤ quietBound s p) ∧
      ((∀ fuel, run fuel s p = none) → ∀ n, ∃ k, n ≤ k ∧ RepaintsAt p (Config.start s) k) ∧
      (p.PaintsWith [] → ∃ h, run (quietBound s p + 1) s p = some h) := by
  refine ⟨fun steps hpasses hcolors ↦ ?_, fun hrun n ↦ ?_, fun hpaints ↦ ?_⟩
  · refine card_le_quietBound hp hpasses fun i hi j hj ↦ ?_
    obtain ⟨d, -, hd, -⟩ := (hpasses j hj).tested
    exact (quiet_iff_not_repaintsAt hd).2 (hcolors i hi j hj)
  · obtain ⟨k, hk, -, hrepaints⟩ := exists_repaintsAt_of_run_eq_none hp (hrun _)
    exact ⟨k, hk, hrepaints⟩
  · rcases hrun : run (quietBound s p + 1) s p with - | h
    · rw [← Nat.zero_add (quietBound s p + 1)] at hrun
      obtain ⟨k, -, -, hrepaints⟩ := exists_repaintsAt_of_run_eq_none hp hrun
      exact absurd hrepaints (not_repaintsAt_of_paintsWith_nil hpaints)
    · exact ⟨h, rfl⟩

/-- Paints the tile green and blue again, and starts over. -/
def flipFlop : Program :=
  ⟨[[some ⟨.paint .green, none⟩, some ⟨.paint .blue, none⟩, some ⟨.call 0, none⟩]]⟩

/-- On a blue tile every third step is like the first. -/
theorem after?_flipFlop (m k : Nat) : after? flipFlop (Config.start twoTiles) (3 * m + k) =
    after? flipFlop (Config.start twoTiles) k := by
  have hround : after? flipFlop (Config.start twoTiles) 3 = some (Config.start twoTiles) := rfl
  induction m with
  | zero => rw [Nat.mul_zero, Nat.zero_add]
  | succ m ih =>
    rw [show 3 * (m + 1) + k = 3 + (3 * m + k) by omega, after?_add_of_eq_some hround, ih]

/-- A step that leaves all colors as they are is the third of its round. -/
theorem mod_three_of_repainted_eq_false (hn : after? flipFlop (Config.start twoTiles) n = some d)
    (hd : (step flipFlop d).repainted = false) : n % 3 = 2 := by
  rw [← Nat.div_add_mod n 3, after?_flipFlop] at hn
  obtain hmod | hmod | hmod : n % 3 = 0 ∨ n % 3 = 1 ∨ n % 3 = 2 := by omega
  case inr.inr => exact hmod
  -- the first two change a color
  all_goals
    rw [hmod] at hn
    obtain rfl := Option.some.inj hn
    contradiction

/-- **A run may go on for ever**: no loop is found as long as colors are changed again and again. -/
theorem run_flipFlop (fuel : Nat) : run fuel twoTiles flipFlop = none := by
  rw [Option.eq_none_iff_forall_ne_some]
  intro h hrun
  rcases exists_run_iff.1 ⟨fuel, h, hrun⟩ with
    ⟨i, j, hlt, ⟨d, e, f, hd, he, hdf, hef⟩, hquiet⟩ | ⟨h', hhalts⟩
  · have hi := mod_three_of_repainted_eq_false hd (hquiet i le_rfl hlt d hd)
    rcases Nat.eq_or_lt_of_le (show i + 1 ≤ j from hlt) with rfl | hlt'
    · -- the third step of a round and the first of the next have different frames
      rw [show i = 3 * (i / 3) + 2 by omega, after?_flipFlop] at hd
      rw [show i + 1 = 3 * (i / 3 + 1) + 0 by omega, after?_flipFlop] at he
      obtain rfl := Option.some.inj hd
      obtain rfl := Option.some.inj he
      exact absurd (hdf.trans hef.symm) (by decide)
    · obtain ⟨d', hd', -⟩ := exists_after?_of_le hlt'.le he
      have hnext := mod_three_of_repainted_eq_false hd'
        (hquiet (i + 1) (Nat.le_succ i) hlt' d' hd')
      omega
  · have hforever : RunsForever flipFlop (Config.start twoTiles) := fun n ↦ by
      have hn : after? flipFlop (Config.start twoTiles) (3 * n) = some (Config.start twoTiles) :=
        after?_flipFlop n 0
      obtain ⟨d, hd, -⟩ := exists_after?_of_le (show n ≤ 3 * n by omega) hn
      exact ⟨d, hd⟩
    exact runsForever_iff.1 hforever h' hhalts

/-- Two steps of the run that goes on for ever, with a change of color before them and at the second
of them; a change of color after so many steps; and the end of a run without paints. -/
theorem run_bounded_between_repaints_twoTiles :
    (Passes twoTiles flipFlop 2 ∧ Passes twoTiles flipFlop 3 ∧
        ({2, 3} : Finset Nat).card ≤ quietBound twoTiles flipFlop) ∧
      ((∀ fuel, run fuel twoTiles flipFlop = none) ∧
        ∃ k, 100 ≤ k ∧ RepaintsAt flipFlop (Config.start twoTiles) k) ∧
      ∃ h, run (quietBound twoTiles callTwice + 1) twoTiles callTwice = some h := by
  have hpasses : ∀ n, Passes twoTiles flipFlop n := fun n ↦
    passes_of_run_eq_none (run_flipFlop (n + 1)) (Nat.lt_succ_self n)
  obtain ⟨hcard, hrepaints, -⟩ :=
    run_bounded_between_repaints twoTiles (show 0 < flipFlop.size by decide)
  refine ⟨⟨hpasses 2, hpasses 3, hcard {2, 3} (fun n _ ↦ hpasses n) ?_⟩,
    ⟨run_flipFlop, hrepaints run_flipFlop 100⟩,
    (run_bounded_between_repaints twoTiles (show 0 < callTwice.size by decide)).2.2 (by decide)⟩
  -- the step in between is the call
  intro i hi j hj k hik hkj hk
  obtain rfl : k = 2 := by
    simp only [Finset.mem_insert, Finset.mem_singleton] at hi hj
    omega
  obtain ⟨d, e, hd, he, q, hq⟩ := hk
  obtain rfl := Option.some.inj hd
  obtain rfl := Option.some.inj he
  exact hq rfl

/-! ### Programs that paint with one color -/

/-- **With one color every run comes to its end.** -/
theorem exists_run_of_paintsWith (hp : p.PaintsWith [color]) (s : Scene) :
    ∃ fuel h, run fuel s p = some h := by
  by_contra hnone
  have hrun : ∀ fuel, run fuel s p = none := fun fuel ↦
    Option.eq_none_iff_forall_ne_some.2 fun h hsome ↦ hnone ⟨fuel, h, hsome⟩
  obtain ⟨steps, hsteps, hcard⟩ :=
    (infinite_setOf_repaintsAt hrun).exists_subset_card_eq (s.board.passables.card + 1)
  have hle : steps.card ≤ s.board.passables.card :=
    card_le_of_repaintsAt hp (c := Config.start s) fun k hk ↦ hsteps hk
  omega

end TileRobot.Machine
