import Mathlib.Data.List.Nodup
import TileRobot.Proofs.Machine.Path

/-!
# Repetitions

What the watch for loops amounts to, said about the path of the machine alone. A *repetition* is a
pair of steps with the same fingerprint and no change of color in between. The evidence of a run
holds, at every step, the fingerprints that a repetition could end at (`Records`), so a run is the
machine stopped at the end of the first repetition:

* `describes_runFrom`: a run stops at the first step that ends a repetition or at which the machine
  halts, a repetition going first, and not before;
* `endsWith_loopDetected_iff`: a loop is reported exactly when there is a repetition;
* `endsWith_iff`: any other ending is one of the machine, nothing having repeated before;
* `exists_run_iff`: a run comes to its end exactly when there is a repetition or the machine halts.
-/

namespace TileRobot.Machine

variable {p : Program} {c d : Config} {i j n : Nat} {h : Halt} {seen : Evidence}

/-! ### Repetitions on a path -/

/-- No tile changes its color in the steps from `i` on and before `j`. -/
def Quiet (p : Program) (c : Config) (i j : Nat) : Prop :=
  ∀ k, i ≤ k → k < j → ∀ d, after? p c k = some d → (step p d).repainted = false

theorem quiet_self (p : Program) (c : Config) (i : Nat) : Quiet p c i i :=
  fun _ hi hlt ↦ absurd hlt (Nat.not_lt.2 hi)

theorem Quiet.mono {i' j' : Nat} (hq : Quiet p c i j) (hi : i ≤ i') (hj : j' ≤ j) :
    Quiet p c i' j' :=
  fun k hk hlt ↦ hq k (hi.trans hk) (hlt.trans_le hj)

theorem quiet_succ_iff (hij : i ≤ j) (hj : after? p c j = some d) :
    Quiet p c i (j + 1) ↔ Quiet p c i j ∧ (step p d).repainted = false := by
  constructor
  · exact fun hq ↦ ⟨hq.mono le_rfl (Nat.le_succ j), hq j hij (Nat.lt_succ_self j) d hj⟩
  · rintro ⟨hq, hd⟩ k hk hlt e he
    rcases Nat.lt_succ_iff_lt_or_eq.1 hlt with hlt | rfl
    · exact hq k hk hlt e he
    · obtain rfl : d = e := Option.some.inj (hj.symm.trans he)
      exact hd

theorem Quiet.trans (hij : Quiet p c i j) (hjn : Quiet p c j n) : Quiet p c i n := by
  intro k hk hlt
  rcases Nat.lt_or_ge k j with hkj | hjk
  · exact hij k hk hkj
  · exact hjn k hjk hlt

/-- What happens from a configuration on a path on, happens on the path so much later. -/
theorem quiet_add_iff {m : Nat} (hm : after? p c m = some d) :
    Quiet p c (m + i) (m + j) ↔ Quiet p d i j := by
  constructor
  · intro hq k hk hlt e he
    exact hq (m + k) (by omega) (by omega) e ((after?_add_of_eq_some hm k).trans he)
  · intro hq k hk hlt e he
    obtain ⟨l, rfl⟩ := Nat.exists_eq_add_of_le (show m ≤ k by omega)
    exact hq l (by omega) (by omega) e ((after?_add_of_eq_some hm l).symm.trans he)

/-- There is a fingerprint when there is a frame to be run and goals are left. -/
theorem fingerprint?_eq_some_iff {f : Fingerprint} : c.fingerprint? = some f ↔
    (∃ below, c.stack = f.frame :: below) ∧ c.scene.goals.isEmpty = false ∧
      c.scene.robot = ⟨f.position, f.heading⟩ := by
  obtain ⟨⟨board, robot, goals⟩, stack⟩ := c
  constructor
  · intro hf
    rcases stack with - | ⟨frame, below⟩
    · contradiction
    · rcases hg : goals.isEmpty with - | -
      · simp only [Config.fingerprint?, hg, Bool.false_eq_true, if_false, Option.some.injEq] at hf
        obtain rfl := hf
        exact ⟨⟨below, rfl⟩, rfl, rfl⟩
      · simp only [Config.fingerprint?, hg, if_true, reduceCtorEq] at hf
  · rintro ⟨⟨below, rfl⟩, hg, rfl⟩
    simp only [Config.fingerprint?, hg, Bool.false_eq_true, if_false]

/-- A step that goes on has a fingerprint. -/
theorem exists_fingerprint?_of_next? (hnext : next? p c = some d) :
    ∃ f, c.fingerprint? = some f := by
  obtain ⟨frame, below, hstack⟩ := List.exists_cons_of_ne_nil (stack_ne_nil_of_next? hnext)
  exact ⟨⟨c.scene.robot.position, c.scene.robot.heading, frame⟩,
    fingerprint?_eq_some_iff.2 ⟨⟨below, hstack⟩, isEmpty_goals_of_next? hnext, rfl⟩⟩

/-- The fingerprint at step `i` comes back at step `j`, and in between no tile changes its color. -/
structure Repetition (p : Program) (c : Config) (i j : Nat) : Prop where
  /-- It comes back later. -/
  lt : i < j
  /-- There is a fingerprint at both steps, and it is the same. -/
  same : ∃ d e f, after? p c i = some d ∧ after? p c j = some e ∧
    d.fingerprint? = some f ∧ e.fingerprint? = some f
  /-- No tile changes its color in between. -/
  quiet : Quiet p c i j

/-! ### The evidence -/

/-- The evidence holds the fingerprints of the steps before `n` since a tile last changed its
color. -/
def Records (p : Program) (c : Config) (n : Nat) (seen : Evidence) : Prop :=
  ∀ f, f ∈ seen ↔
    ∃ i < n, Quiet p c i n ∧ ∃ d, after? p c i = some d ∧ d.fingerprint? = some f

theorem records_empty (p : Program) (c : Config) : Records p c 0 ∅ := by
  intro f
  simp

/-- Each step of a run keeps the evidence up to date. -/
theorem Records.update (hseen : Records p c n seen) (hn : after? p c n = some d) :
    Records p c (n + 1) (seen.update d (step p d).repainted) := by
  intro f
  rw [Evidence.mem_update, hseen f]
  constructor
  · rintro ⟨hd, hf | ⟨i, hlt, hq, e, he, hf⟩⟩
    · exact ⟨n, Nat.lt_succ_self n, (quiet_succ_iff le_rfl hn).2 ⟨quiet_self p c n, hd⟩, d, hn, hf⟩
    · exact ⟨i, hlt.trans (Nat.lt_succ_self n), (quiet_succ_iff hlt.le hn).2 ⟨hq, hd⟩, e, he, hf⟩
  · -- a fingerprint of an earlier step was in the evidence, and the one of step `n` has come to it
    rintro ⟨i, hlt, hq, e, he, hf⟩
    obtain ⟨hq, hd⟩ := (quiet_succ_iff (Nat.lt_succ_iff.1 hlt) hn).1 hq
    refine ⟨hd, ?_⟩
    rcases Nat.lt_succ_iff_lt_or_eq.1 hlt with hlt | rfl
    · exact Or.inr ⟨i, hlt, hq, e, he, hf⟩
    · obtain rfl : d = e := Option.some.inj (hn.symm.trans he)
      exact Or.inl hf

/-- The evidence tells whether a step ends a repetition. -/
theorem Records.repeats_iff (hseen : Records p c n seen) (hn : after? p c n = some d) :
    seen.Repeats d ↔ ∃ i, Repetition p c i n := by
  constructor
  · rintro ⟨f, hf, hmem⟩
    obtain ⟨i, hlt, hq, e, he, hef⟩ := (hseen f).1 hmem
    exact ⟨i, hlt, ⟨e, d, f, he, hn, hef, hf⟩, hq⟩
  · rintro ⟨i, hlt, ⟨e, d', f, he, hd', hef, hf⟩, hq⟩
    obtain rfl : d = d' := Option.some.inj (hn.symm.trans hd')
    exact ⟨f, hf, (hseen f).2 ⟨i, hlt, hq, e, he, hef⟩⟩

/-! ### What a run tells about the path -/

/-- No step from `n` on and before `m` ends a repetition. -/
def Fresh (p : Program) (c : Config) (n m : Nat) : Prop :=
  ∀ j, n ≤ j → j < m → ∀ i, ¬ Repetition p c i j

theorem fresh_self (p : Program) (c : Config) (n : Nat) : Fresh p c n n :=
  fun _ hj hlt ↦ absurd hlt (Nat.not_lt.2 hj)

theorem Fresh.cons {m : Nat} (hn : ∀ i, ¬ Repetition p c i n) (hm : Fresh p c (n + 1) m) :
    Fresh p c n m := by
  intro j hj hlt
  rcases Nat.eq_or_lt_of_le hj with rfl | hj
  · exact hn
  · exact hm j hj hlt

theorem Fresh.concat {m : Nat} (hnm : Fresh p c n m) (hm : ∀ i, ¬ Repetition p c i m) :
    Fresh p c n (m + 1) := by
  intro j hj hlt
  rcases Nat.lt_succ_iff_lt_or_eq.1 hlt with hlt | rfl
  · exact hnm j hj hlt
  · exact hm

theorem Fresh.mono {i' : Nat} (hfresh : Fresh p c i j) (hle : i' ≤ j) : Fresh p c i i' :=
  fun k hk hlt ↦ hfresh k hk (hlt.trans_le hle)

/-- Nothing repeats if the fingerprints are all different. -/
theorem fresh_of_nodup (hnodup : ((List.range n).map fun k ↦
    (after? p c k).bind Config.fingerprint?).Nodup) : Fresh p c 0 n := by
  rintro j - hj i ⟨hlt, ⟨d, e, f, hd, he, hdf, hef⟩, -⟩
  have hij := List.inj_on_of_nodup_map hnodup (List.mem_range.2 (hlt.trans hj))
    (List.mem_range.2 hj) (by rw [hd, he, Option.bind_some, Option.bind_some, hdf, hef])
  omega

/-- What it means for the path from `c` that a run from step `n` on, within a number of steps, gives
an answer or gives none. -/
def Describes (p : Program) (c : Config) (n fuel : Nat) : Option Halt → Prop
  | none => Fresh p c n (n + fuel) ∧ ∃ d, after? p c (n + fuel) = some d
  | some h => ∃ j, j < n + fuel ∧ Fresh p c n j ∧
      ((∃ i, Repetition p c i j) ∧ h.ending = .finished .loopDetected ∨
        (∀ i, ¬ Repetition p c i j) ∧ HaltsAt p c j h)

/-- What a run from the next step on tells, a run from this step tells. -/
theorem Describes.cons {fuel : Nat} {halt? : Option Halt} (hn : ∀ i, ¬ Repetition p c i n)
    (hrest : Describes p c (n + 1) fuel halt?) : Describes p c n (fuel + 1) halt? := by
  rcases halt? with - | h
  · obtain ⟨hfresh, e, he⟩ := hrest
    rw [Nat.add_right_comm] at hfresh he
    exact ⟨hfresh.cons hn, e, he⟩
  · obtain ⟨j, hlt, hfresh, hj⟩ := hrest
    exact ⟨j, by omega, hfresh.cons hn, hj⟩

/-- **A run stops at the first step that ends a repetition or at which the machine halts.** -/
theorem describes_runFrom {fuel : Nat} (hseen : Records p c n seen) (hn : after? p c n = some d) :
    Describes p c n fuel (runFrom p fuel seen d) := by
  induction fuel generalizing n seen d with
  | zero => exact ⟨fresh_self p c n, d, hn⟩
  | succ fuel ih =>
    by_cases hrep : seen.Repeats d
    · rw [runFrom_of_repeats hrep]
      exact ⟨n, by omega, fresh_self p c n, Or.inl ⟨(hseen.repeats_iff hn).1 hrep, rfl⟩⟩
    · have hnot : ∀ i, ¬ Repetition p c i n := fun i hi ↦ hrep ((hseen.repeats_iff hn).2 ⟨i, hi⟩)
      rcases hend : (step p d).ending? with - | end'
      · have hnext : after? p c (n + 1) = some (step p d).next := by
          rw [after?_succ_of_eq_some hn]
          exact next?_eq_some_iff.2 ⟨hend, rfl⟩
        rw [runFrom_of_proceed hrep hend]
        exact (ih (hseen.update hn) hnext).cons hnot
      · rw [runFrom_of_ending hrep hend]
        exact ⟨n, by omega, fresh_self p c n, Or.inr ⟨hnot, d, hn, hend, rfl⟩⟩

theorem describes_run (fuel : Nat) (s : Scene) (p : Program) :
    Describes p (Config.start s) 0 fuel (run fuel s p) :=
  describes_runFrom (records_empty p _) rfl

theorem HaltsAt.ending_ne_loopDetected (hn : HaltsAt p c n h) :
    h.ending ≠ .finished .loopDetected := by
  obtain ⟨d, -, hends⟩ := haltsAt_iff.1 hn
  exact hends.ne_loopDetected

variable {s : Scene}

/-- No run gives an answer as long as the machine goes on and nothing repeats. -/
theorem run_eq_none_of_fresh (hn : after? p (Config.start s) n = some d)
    (hfresh : Fresh p (Config.start s) 0 n) : run n s p = none := by
  have hdesc := describes_run n s p
  refine Option.eq_none_iff_forall_ne_some.2 fun h hrun ↦ ?_
  rw [hrun] at hdesc
  obtain ⟨j, hlt, -, ⟨⟨i, hi⟩, -⟩ | ⟨-, hj⟩⟩ := hdesc
  · exact hfresh j (Nat.zero_le j) (by omega) i hi
  · have hle := le_of_haltsAt hj hn
    omega

/-- A run that may make one step more than a repetition takes gives an answer. -/
theorem exists_run_of_repetition (hrep : Repetition p (Config.start s) i j) :
    ∃ h, run (j + 1) s p = some h := by
  have hdesc := describes_run (j + 1) s p
  rcases hrun : run (j + 1) s p with - | h <;> rw [hrun] at hdesc
  · exact absurd hrep (hdesc.1 j (Nat.zero_le j) (by omega) i)
  · exact ⟨h, rfl⟩

/-- An answer other than a loop is where the machine halts, at one of the steps allowed. -/
theorem exists_haltsAt_of_run {fuel : Nat} (hrun : run fuel s p = some h)
    (hne : h.ending ≠ .finished .loopDetected) : ∃ n < fuel, HaltsAt p (Config.start s) n h := by
  have hdesc := describes_run fuel s p
  rw [hrun] at hdesc
  obtain ⟨j, hlt, -, ⟨-, hloop⟩ | ⟨-, hj⟩⟩ := hdesc
  · exact absurd hloop hne
  · exact ⟨j, by omega, hj⟩

theorem halts_of_run {fuel : Nat} (hrun : run fuel s p = some h)
    (hne : h.ending ≠ .finished .loopDetected) : Halts p (Config.start s) h := by
  obtain ⟨n, -, hn⟩ := exists_haltsAt_of_run hrun hne
  exact ⟨n, hn⟩

/-- **A loop is reported exactly when there is a repetition.** -/
theorem endsWith_loopDetected_iff :
    EndsWith s p (.finished .loopDetected) ↔ ∃ i j, Repetition p (Config.start s) i j := by
  constructor
  · rintro ⟨fuel, h, hrun, hloop⟩
    have hdesc := describes_run fuel s p
    rw [hrun] at hdesc
    obtain ⟨j, -, -, ⟨⟨i, hi⟩, -⟩ | ⟨-, hj⟩⟩ := hdesc
    · exact ⟨i, j, hi⟩
    · exact absurd hloop hj.ending_ne_loopDetected
  · rintro ⟨i, j, hrep⟩
    obtain ⟨h, hrun⟩ := exists_run_of_repetition hrep
    have hdesc := describes_run (j + 1) s p
    rw [hrun] at hdesc
    obtain ⟨k, hlt, -, ⟨-, hloop⟩ | ⟨hnot, hk⟩⟩ := hdesc
    · exact ⟨j + 1, h, hrun, hloop⟩
    · -- the machine has not halted before the repetition ends
      obtain ⟨d, e, f, -, he, -, -⟩ := hrep.same
      obtain rfl : j = k := Nat.le_antisymm (le_of_haltsAt hk he) (by omega)
      exact absurd hrep (hnot i)

/-- Where the machine halts, a run that may make so many steps ends the same way or reports a
loop. -/
theorem exists_run_of_haltsAt (hn : HaltsAt p (Config.start s) n h) :
    ∃ k, run (n + 1) s p = some k ∧ (k = h ∨ k.ending = .finished .loopDetected) := by
  have hdesc := describes_run (n + 1) s p
  rcases hrun : run (n + 1) s p with - | k <;> rw [hrun] at hdesc
  · obtain ⟨-, d, hd⟩ := hdesc
    rw [after?_eq_none_of_haltsAt hn (by omega)] at hd
    contradiction
  · obtain ⟨j, -, -, ⟨-, hloop⟩ | ⟨-, hj⟩⟩ := hdesc
    · exact ⟨k, rfl, Or.inr hloop⟩
    · exact ⟨k, rfl, Or.inl (hj.unique hn).2⟩

/-- If nothing repeats up to the step at which the machine halts, the run ends there. -/
theorem run_of_haltsAt_of_fresh (hn : HaltsAt p (Config.start s) n h)
    (hfresh : Fresh p (Config.start s) 0 (n + 1)) : run (n + 1) s p = some h := by
  obtain ⟨k, hk, rfl | hloop⟩ := exists_run_of_haltsAt hn
  · exact hk
  · -- a repetition would end at a step that the machine does not come to
    obtain ⟨i, j, hrep⟩ := endsWith_loopDetected_iff.1 ⟨n + 1, k, hk, hloop⟩
    obtain ⟨-, e, -, -, he, -, -⟩ := hrep.same
    have hj := le_of_haltsAt hn he
    exact absurd hrep (hfresh j (Nat.zero_le j) (by omega) i)

/-- If the fingerprints up to the step at which the machine halts are all different, the run ends
there. -/
theorem run_of_haltsAt_of_nodup (hn : HaltsAt p (Config.start s) n h)
    (hnodup : ((List.range (n + 1)).map fun k ↦
      (after? p (Config.start s) k).bind Config.fingerprint?).Nodup) :
    run (n + 1) s p = some h :=
  run_of_haltsAt_of_fresh hn (fresh_of_nodup hnodup)

/-- **A run that reports no loop ends where the machine halts**, nothing having repeated up to that
step. -/
theorem endsWith_iff {e : Ending} (hne : e ≠ .finished .loopDetected) : EndsWith s p e ↔
    ∃ n d t, after? p (Config.start s) n = some d ∧ Fresh p (Config.start s) 0 (n + 1) ∧
      Ends p d e t := by
  constructor
  · rintro ⟨fuel, h, hrun, rfl⟩
    have hdesc := describes_run fuel s p
    rw [hrun] at hdesc
    obtain ⟨n, -, hfresh, ⟨-, hloop⟩ | ⟨hnot, hn⟩⟩ := hdesc
    · contradiction
    · obtain ⟨d, hd, hends⟩ := haltsAt_iff.1 hn
      exact ⟨n, d, h.scene, hd, hfresh.concat hnot, hends⟩
  · rintro ⟨n, d, t, hd, hfresh, hends⟩
    have hn : HaltsAt p (Config.start s) n ⟨e, t⟩ := haltsAt_iff.2 ⟨d, hd, hends⟩
    exact ⟨n + 1, _, run_of_haltsAt_of_fresh hn hfresh, rfl⟩

theorem exists_run_of_halts (hh : Halts p (Config.start s) h) :
    ∃ fuel k, run fuel s p = some k ∧ (k = h ∨ k.ending = .finished .loopDetected) := by
  obtain ⟨n, hn⟩ := hh
  exact ⟨n + 1, exists_run_of_haltsAt hn⟩

/-- **A run comes to its end exactly when there is a repetition or the machine halts.** -/
theorem exists_run_iff : (∃ fuel h, run fuel s p = some h) ↔
    (∃ i j, Repetition p (Config.start s) i j) ∨ ∃ h, Halts p (Config.start s) h := by
  constructor
  · rintro ⟨fuel, h, hrun⟩
    by_cases hloop : h.ending = .finished .loopDetected
    · exact Or.inl (endsWith_loopDetected_iff.1 ⟨fuel, h, hrun, hloop⟩)
    · exact Or.inr ⟨h, halts_of_run hrun hloop⟩
  · rintro (hrep | ⟨h, hh⟩)
    · obtain ⟨fuel, h, hrun, -⟩ := endsWith_loopDetected_iff.2 hrep
      exact ⟨fuel, h, hrun⟩
    · obtain ⟨fuel, k, hrun, -⟩ := exists_run_of_halts hh
      exact ⟨fuel, k, hrun⟩

end TileRobot.Machine
