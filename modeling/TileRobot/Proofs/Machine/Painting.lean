import Mathlib.Combinatorics.Enumerative.DoubleCounting
import TileRobot.Proofs.Board.Passable
import TileRobot.Proofs.Machine.Invariant
import TileRobot.Proofs.Machine.Watch
import TileRobot.Proofs.Program.Repertoire

/-!
# Steps that change a color

A step that changes the color of a tile carries out a paint of the program, with the robot on a tile
of another color (`RepaintsAt.exists_paint`). A program that paints with one color only does that at
most once to each tile: a tile that has the color keeps it (`colorAt_of_after?`), and painting it
again is no change. So there are no more such steps than passable positions, however long the
machine goes on (`card_le_of_repaintsAt`).
-/

namespace TileRobot.Machine

variable {p : Program} {c d e : Config} {color : Color} {q : Position} {i j k n : Nat}

/-- Step `k` changes the color of a tile. -/
def RepaintsAt (p : Program) (c : Config) (k : Nat) : Prop :=
  ∃ d e, after? p c k = some d ∧ after? p c (k + 1) = some e ∧
    ∃ q, e.scene.board.colorAt q ≠ d.scene.board.colorAt q

/-- Up to a step that is reached, nothing is repainted exactly if no step changes a color. -/
theorem quiet_iff_not_repaintsAt (hj : after? p c j = some d) :
    Quiet p c i j ↔ ∀ k, i ≤ k → k < j → ¬ RepaintsAt p c k := by
  simp only [quiet_iff hj, RepaintsAt, not_exists, not_and, not_not]

/-- Only a paint changes a color. -/
theorem Acts.eq_paint {declared : Nat} {s t : Scene} {o : Operation} {b : Bool}
    {pushed : List Frame} (ha : Acts declared s o b t pushed) (hb : b = true) :
    ∃ color, o = .paint color ∧ s.board.Repaints s.robot.position color ∧ t = s.repaint color := by
  rcases ha with - | - | - | color | -
  case paint => exact ⟨color, rfl, of_decide_eq_true hb, rfl⟩
  all_goals contradiction

/-- **A step that changes a color carries out a paint of the program.** -/
theorem RepaintsAt.exists_paint (hk : RepaintsAt p c k) :
    ∃ d e color, after? p c k = some d ∧ after? p c (k + 1) = some e ∧
      (∃ r ∈ p.routines, ∃ i ∈ Routine.instructions r, i.paint? = some color) ∧
        d.scene.board.Repaints d.scene.robot.position color ∧ e.scene = d.scene.repaint color := by
  obtain ⟨d, e, hd, he, q, hq⟩ := hk
  have hnext : next? p d = some e := after?_succ_of_eq_some hd ▸ he
  have hrepainted : (step p d).repainted = true := by
    by_contra hfalse
    exact hq ((repainted_eq_false_iff hnext).1 (Bool.eq_false_of_not_eq_true hfalse) q)
  obtain ⟨-, hgoes⟩ := goes_iff.1 ⟨hnext, hrepainted⟩
  generalize hb : true = b at hgoes
  rcases hgoes with - | ⟨htop, hfilled, -, hacts⟩
  · contradiction
  · obtain ⟨color, hpaint, hrepaints, hscene⟩ := hacts.eq_paint hb.symm
    have hslot := List.mem_of_getElem? (Option.join_eq_some_iff.1 hfilled)
    exact ⟨_, _, color, hd, he, ⟨_, List.mem_of_getElem? htop, _,
      Routine.mem_instructions.2 hslot, Instruction.paint?_eq_some_iff.2 hpaint⟩, hrepaints, hscene⟩

/-- Without paints no step changes a color. -/
theorem not_repaintsAt_of_paintsWith_nil (hp : p.PaintsWith []) : ¬ RepaintsAt p c k := by
  intro hk
  obtain ⟨_, _, color, -, -, ⟨r, hr, i, hi, hpaint⟩, -⟩ := hk.exists_paint
  exact List.not_mem_nil (hp r hr i hi color hpaint)

/-! ### Programs that paint with one color -/

section OneColor

variable (hp : p.PaintsWith [color])
include hp

/-- A tile that has the color keeps it. -/
theorem colorAt_of_next? (hnext : next? p c = some d) (hq : c.scene.board.colorAt q = some color) :
    d.scene.board.colorAt q = some color := by
  by_contra hne
  have hchange : RepaintsAt p c 0 := ⟨c, d, rfl, hnext, q, fun heq ↦ hne (heq.trans hq)⟩
  obtain ⟨c', d', color', hc', hd', ⟨r, hr, i, hi, hpaint⟩, -, hscene⟩ := hchange.exists_paint
  obtain rfl : c = c' := Option.some.inj hc'
  obtain rfl : d = d' := Option.some.inj (hnext.symm.trans hd')
  obtain rfl : color' = color := List.mem_singleton.1 (hp r hr i hi color' hpaint)
  rw [hscene, Scene.repaint, Board.colorAt_repaint] at hne
  split at hne
  · exact hne rfl
  · exact hne hq

theorem colorAt_of_after? (hn : after? p c n = some d) (hq : c.scene.board.colorAt q = some color) :
    d.scene.board.colorAt q = some color := by
  induction n generalizing d with
  | zero =>
    obtain rfl : c = d := Option.some.inj hn
    exact hq
  | succ n ih =>
    obtain ⟨e, he, hnext⟩ := exists_next?_of_after?_succ hn
    exact colorAt_of_next? hp hnext (ih he)

/-- **No tile changes its color twice.** -/
theorem not_repaintsAt_of_lt (hij : i < j) (hi : RepaintsAt p c i) (hd : after? p c i = some d)
    (he : after? p c j = some e) (hsame : e.scene.robot.position = d.scene.robot.position) :
    ¬ RepaintsAt p c j := by
  intro hj
  obtain ⟨d', f, color', hd', hf, ⟨r, hr, l, hl, hpaint⟩, hrepaints, hscene⟩ := hi.exists_paint
  obtain rfl : d = d' := Option.some.inj (hd.symm.trans hd')
  obtain rfl : color' = color := List.mem_singleton.1 (hp r hr l hl color' hpaint)
  obtain ⟨e', -, color, he', -, ⟨r', hr', l', hl', hpaint'⟩, hagain, -⟩ := hj.exists_paint
  obtain rfl : e = e' := Option.some.inj (he.symm.trans he')
  obtain rfl : color = color' := List.mem_singleton.1 (hp r' hr' l' hl' color hpaint')
  -- from step `i` on the tile has the color
  have hpainted : f.scene.board.colorAt d.scene.robot.position = some color := by
    rw [hscene, Scene.repaint, Board.colorAt_repaint, if_pos ⟨rfl, hrepaints.1⟩]
  obtain ⟨f', hf', hpath⟩ := exists_after?_of_le (show i + 1 ≤ j from hij) he
  obtain rfl : f = f' := Option.some.inj (hf.symm.trans hf')
  exact hagain.2 (hsame ▸ colorAt_of_after? hp hpath hpainted)

/-- **There are no more such steps than passable positions.** -/
theorem card_le_of_repaintsAt {steps : Finset Nat} (hsteps : ∀ k ∈ steps, RepaintsAt p c k) :
    steps.card ≤ c.scene.board.passables.card := by
  refine Finset.card_le_card_of_forall_subsingleton
    (fun k q ↦ ∃ d, after? p c k = some d ∧ d.scene.robot.position = q) ?_ ?_
  · intro k hk
    obtain ⟨d, _, _, hd, -, -, hrepaints, -⟩ := (hsteps k hk).exists_paint
    refine ⟨d.scene.robot.position, ?_, d, hd, rfl⟩
    exact Board.mem_passables.2 (((follows_of_after? hd).passable _).1 hrepaints.1)
  · rintro q - i ⟨hi, d, hd, rfl⟩ j ⟨hj, e, he, hsame⟩
    rcases Nat.lt_trichotomy i j with hlt | heq | hlt
    · exact absurd (hsteps j hj) (not_repaintsAt_of_lt hp hlt (hsteps i hi) hd he hsame)
    · exact heq
    · exact absurd (hsteps i hi) (not_repaintsAt_of_lt hp hlt (hsteps j hj) he hd hsame.symm)

end OneColor

end TileRobot.Machine
