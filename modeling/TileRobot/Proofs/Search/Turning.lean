import TileRobot.Proofs.Machine.Motion
import TileRobot.Search.Basic

/-!
# Searches on turned scenes

A search looks at its scene only by trials, and a trial only at how a run ends. So scenes on which
each program ends in the same way have the same searches, whatever the limits and the clock are
(`searchFrom_congr`). A quarter turn of the scene is a case of that (`ending_turned_mirrored`).

For the mirror image this holds of the runs only. The program found there need not be the mirror
image of the one found here, since a turn to the left is tried before a turn to the right.
-/

namespace TileRobot

open Search Machine

variable {fuel : Nat} {s t : Scene}

/-- The challenge to solve the scene after a quarter turn to the left. -/
def Challenge.turned (c : Challenge) : Challenge := { c with scene := c.scene.turned }

namespace Search

theorem trial_congr {p : Program}
    (hrun : (run fuel t p).map Halt.ending = (run fuel s p).map Halt.ending) :
    trial fuel t p = trial fuel s p := by
  rw [trial, trial]
  rcases hs : run fuel s p with - | ⟨e, u⟩ <;> rw [hs] at hrun
  · rw [Option.map_eq_none_iff.1 hrun]
  · obtain ⟨⟨e', u'⟩, ht, rfl : e' = e⟩ := Option.map_eq_some_iff.1 hrun
    rw [ht]
    cases e' <;> rfl

/-- **A search looks at its scene only by trials.** -/
theorem searchFrom_congr {m : Type → Type} [Monad m] (clock : Nat → m Nat)
    (htrial : ∀ p, trial fuel t p = trial fuel s p) (limit? deadline? : Option Nat)
    (c : { c : Space.Cursor // c.Valid }) (attempts : Nat) :
    searchFrom clock fuel t limit? deadline? c attempts =
      searchFrom clock fuel s limit? deadline? c attempts := by
  induction c using Space.Cursor.induction_advance generalizing attempts with
  | step c ih =>
    rw [searchFrom]
    conv_rhs => rw [searchFrom]
    split
    · rfl
    · rename_i p hp
      have hrest := ih (Option.isSome_of_eq_some hp)
      simp only [htrial, hrest]

end Search

/-- **Runs are invariant under the symmetries of the grid.** A quarter turn of board, robot and
goals does not change how a run ends, nor when. So the search for a solution has the same result,
whatever its limits are and however the clock runs. And the mirror image of a program, with left and
right exchanged, ends on the mirror image of a scene as the program ends on the scene. -/
theorem ending_turned_mirrored :
    (∀ (fuel : Nat) (s : Scene) (p : Program),
      (run fuel s.turned p).map Halt.ending = (run fuel s p).map Halt.ending) ∧
    (∀ (m : Type → Type) [Monad m] (clock : Nat → m Nat) (fuel : Nat) (challenge : Challenge)
      (limits : Limits),
      search clock fuel challenge.turned limits = search clock fuel challenge limits) ∧
    ∀ (fuel : Nat) (s : Scene) (p : Program),
      (run fuel s.mirrored p.mirrored).map Halt.ending = (run fuel s p).map Halt.ending := by
  refine ⟨map_ending_run_turned, fun m _ clock fuel challenge limits ↦ ?_, map_ending_run_mirrored⟩
  have htrial : ∀ p, trial fuel challenge.scene.turned p = trial fuel challenge.scene p :=
    fun p ↦ trial_congr (map_ending_run_turned fuel challenge.scene p)
  exact bind_congr fun start ↦ searchFrom_congr clock htrial _ _ _ _

end TileRobot
