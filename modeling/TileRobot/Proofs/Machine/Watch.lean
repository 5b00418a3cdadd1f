import TileRobot.Proofs.Machine.Repetition

/-!
# What the watch for loops adds

A run is the machine together with its watch for loops, and the watch keeps evidence. Here the
evidence is gone: what a run comes to is said about the configurations of the machine alone, by what
can be seen of them (`Revisit`). The robot is back where it was and faces as it did, the same frame
is on top, goals are left, and every tile has kept its color in each step in between.

* That a step has repainted something is the same as that some tile has another color after it
  (`repainted_eq_false_iff`). Painting a tile with the color it has is no change.
* `endsWith_loopDetected_iff_revisit`: a run reports a loop exactly if the machine comes to revisit,
  and in all other cases it ends exactly as the machine does, or not at all if the machine does not.
-/

namespace TileRobot

/-- Painting leaves all colors as they are exactly if it has no effect. -/
theorem Board.forall_colorAt_repaint_iff {b : Board} {q : Position} {color : Color} :
    (∀ r, (b.repaint q color).colorAt r = b.colorAt r) ↔ ¬ b.Repaints q color := by
  constructor
  · rintro hsame ⟨hpassable, hne⟩
    have hq := hsame q
    rw [colorAt_repaint, if_pos ⟨rfl, hpassable⟩] at hq
    exact hne hq.symm
  · intro hnot r
    rw [repaint_of_not_repaints hnot]

namespace Machine

variable {p : Program} {c d : Config} {i j : Nat}

/-! ### Steps that change a color -/

theorem Acts.repainted_eq_false_iff {declared : Nat} {s t : Scene} {o : Operation} {b : Bool}
    {pushed : List Frame} (ha : Acts declared s o b t pushed) :
    b = false ↔ ∀ q, t.board.colorAt q = s.board.colorAt q := by
  rcases ha with - | - | - | color | -
  case paint => exact decide_eq_false_iff_not.trans Board.forall_colorAt_repaint_iff.symm
  all_goals exact iff_of_true rfl fun _ ↦ rfl

/-- **A step that goes on has repainted nothing exactly if all tiles have kept their colors.** -/
theorem repainted_eq_false_iff (hnext : next? p c = some d) :
    (step p c).repainted = false ↔ ∀ q, d.scene.board.colorAt q = c.scene.board.colorAt q := by
  obtain ⟨b, rfl, hgoes⟩ := exists_goes_of_next? hnext
  generalize (step p c).repainted = b at hgoes
  rcases hgoes with - | ⟨-, -, -, hacts⟩
  · exact iff_of_true rfl fun _ ↦ rfl
  · exact hacts.repainted_eq_false_iff

/-- Up to a step that is reached, nothing is repainted exactly if each step keeps all colors. -/
theorem quiet_iff (hj : after? p c j = some d) :
    Quiet p c i j ↔ ∀ k, i ≤ k → k < j → ∀ e f, after? p c k = some e →
      after? p c (k + 1) = some f → ∀ q, f.scene.board.colorAt q = e.scene.board.colorAt q := by
  constructor
  · intro hquiet k hk hlt e f he hf
    rw [after?_succ_of_eq_some he] at hf
    exact (repainted_eq_false_iff hf).1 (hquiet k hk hlt e he)
  · intro hcolors k hk hlt e he
    obtain ⟨f, hf, hnext⟩ := exists_next?_of_lt hlt he hj
    exact (repainted_eq_false_iff hnext).2 (hcolors k hk hlt e f he hf)

/-! ### Coming back -/

/-- The machine revisits at step `j` what it left at step `i`. -/
structure Revisit (p : Program) (c : Config) (i j : Nat) : Prop where
  /-- It comes back later. -/
  lt : i < j
  /-- The robot and the top frame are the same, and goals are left. -/
  alike : ∃ d e, after? p c i = some d ∧ after? p c j = some e ∧
    e.scene.goals.isEmpty = false ∧ d.scene.robot = e.scene.robot ∧ d.stack.head? = e.stack.head?
  /-- No step in between changes the color of a tile. -/
  colors : ∀ k, i ≤ k → k < j → ∀ d e, after? p c k = some d → after? p c (k + 1) = some e →
    ∀ q, e.scene.board.colorAt q = d.scene.board.colorAt q

/-- **A fingerprint is repeated exactly where the machine revisits.** -/
theorem repetition_iff : Repetition p c i j ↔ Revisit p c i j := by
  constructor
  · rintro ⟨hlt, ⟨d, e, f, hd, he, hdf, hef⟩, hquiet⟩
    obtain ⟨⟨below, hdstack⟩, -, hdrobot⟩ := fingerprint?_eq_some_iff.1 hdf
    obtain ⟨⟨below', hestack⟩, hgoals, herobot⟩ := fingerprint?_eq_some_iff.1 hef
    refine ⟨hlt, ⟨d, e, hd, he, hgoals, hdrobot.trans herobot.symm, ?_⟩, (quiet_iff he).1 hquiet⟩
    rw [hdstack, hestack, List.head?_cons, List.head?_cons]
  · rintro ⟨hlt, ⟨d, e, hd, he, hgoals, hrobot, htop⟩, hcolors⟩
    -- the machine goes on from step `i`, so there is a frame on top and goals are left
    obtain ⟨d', -, hnext⟩ := exists_next?_of_lt hlt hd he
    obtain ⟨frame, below, hdstack⟩ := List.exists_cons_of_ne_nil (stack_ne_nil_of_next? hnext)
    rw [hdstack, List.head?_cons] at htop
    obtain ⟨below', hestack⟩ := List.head?_eq_some_iff.1 htop.symm
    refine ⟨hlt, ⟨d, e, ⟨e.scene.robot.position, e.scene.robot.heading, frame⟩, hd, he, ?_, ?_⟩,
      (quiet_iff he).2 hcolors⟩
    · exact fingerprint?_eq_some_iff.2 ⟨⟨below, hdstack⟩, isEmpty_goals_of_next? hnext, hrobot⟩
    · exact fingerprint?_eq_some_iff.2 ⟨⟨below', hestack⟩, hgoals, rfl⟩

/-! ### Runs and the machine -/

/-- **A run is the machine and a test for revisits, and nothing else.** It reports a loop exactly if
the machine revisits. It ends in another way exactly if the machine halts and does not revisit, and
then it ends as the machine does: with the same outcome or fault, and with the same scene. -/
theorem endsWith_loopDetected_iff_revisit (s : Scene) (p : Program) :
    (EndsWith s p (.finished .loopDetected) ↔ ∃ i j, Revisit p (Config.start s) i j) ∧
      ∀ h, (∃ fuel, run fuel s p = some h) ∧ h.ending ≠ .finished .loopDetected ↔
        Halts p (Config.start s) h ∧ ¬ ∃ i j, Revisit p (Config.start s) i j := by
  simp only [← repetition_iff, ← endsWith_loopDetected_iff, true_and]
  intro h
  constructor
  · rintro ⟨⟨fuel, hrun⟩, hne⟩
    refine ⟨halts_of_run hrun hne, ?_⟩
    rintro ⟨fuel', k, hrun', hloop⟩
    exact hne (run_unique hrun hrun' ▸ hloop)
  · rintro ⟨hhalts, hnot⟩
    obtain ⟨fuel, k, hrun, rfl | hloop⟩ := exists_run_of_halts hhalts
    · obtain ⟨n, hn⟩ := hhalts
      exact ⟨⟨fuel, hrun⟩, hn.ending_ne_loopDetected⟩
    · exact absurd ⟨fuel, k, hrun, hloop⟩ hnot

end Machine

end TileRobot
