import TileRobot.Proofs.Machine.Repetition

/-!
# Runs in lock step

Two programs run in lock step when a relation between their configurations is kept by their steps:
where one goes on, so does the other, with a change of color or without, and where one ends the run,
so does the other (`LockStep`). The fingerprints need not be the same, but different ones have to
correspond to different ones. Then the evidence of one run finds a loop at the step at which that of
the other does, and the runs end in the same way and after as many steps (`LockStep.runFrom`).

The relation may be lost when the first run ends in certain ways. So it is not asked that the second
run ends, too, unless the ending of the first is one of those that are followed.
-/

namespace TileRobot.Machine

variable {p p' : Program} {c c' d : Config} {seen seen' : Evidence}
  {Related : Config → Config → Prop} {Followed : Ending → Prop} {f : Fingerprint → Fingerprint}

/-- The steps of two programs keep a relation between their configurations, where the fingerprints
correspond by `f`, and endings that are followed are the same. -/
structure LockStep (p p' : Program) (Related : Config → Config → Prop)
    (f : Fingerprint → Fingerprint) (Followed : Ending → Prop) : Prop where
  /-- Different fingerprints correspond to different ones. -/
  injective : Function.Injective f
  /-- There are fingerprints on both sides or on neither, and they correspond. -/
  fingerprint : ∀ {c c'}, Related c c' → c'.fingerprint? = c.fingerprint?.map f
  /-- Where the first program goes on, so does the second, and with the same change of color. -/
  goes : ∀ {c c' b d}, Related c c' → Goes p c b d → ∃ d', Goes p' c' b d' ∧ Related d d'
  /-- Where the first program ends in a way that is followed, so does the second. -/
  ends : ∀ {c c' e t}, Related c c' → Followed e → Ends p c e t → ∃ t', Ends p' c' e t'

/-- The evidence of one run holds what corresponds to the evidence of the other. -/
def Evidence.Match (f : Fingerprint → Fingerprint) (seen seen' : Evidence) : Prop :=
  ∀ x, f x ∈ seen' ↔ x ∈ seen

theorem Evidence.match_empty (f : Fingerprint → Fingerprint) : Evidence.Match f ∅ ∅ := by
  intro x
  simp

namespace LockStep

variable (hlock : LockStep p p' Related f Followed)
include hlock

/-! ### One step -/

/-- The evidence finds a loop on both sides or on neither. -/
theorem repeats_iff (hseen : Evidence.Match f seen seen') (hrelated : Related c c') :
    seen'.Repeats c' ↔ seen.Repeats c := by
  rw [Evidence.Repeats, hlock.fingerprint hrelated]
  constructor
  · rintro ⟨x, hx, hmem⟩
    obtain ⟨y, hy, rfl⟩ := Option.map_eq_some_iff.1 hx
    exact ⟨y, hy, (hseen y).1 hmem⟩
  · rintro ⟨y, hy, hmem⟩
    exact ⟨f y, Option.map_eq_some_iff.2 ⟨y, hy, rfl⟩, (hseen y).2 hmem⟩

/-- A step keeps the evidence of one run in correspondence with that of the other. -/
theorem match_update (hseen : Evidence.Match f seen seen') (hrelated : Related c c') (b : Bool) :
    Evidence.Match f (seen.update c b) (seen'.update c' b) := by
  intro x
  have hsame : c'.fingerprint? = some (f x) ↔ c.fingerprint? = some x := by
    rw [hlock.fingerprint hrelated]
    exact (Option.map_injective hlock.injective).eq_iff' rfl
  rw [Evidence.mem_update, Evidence.mem_update, hsame, hseen x]

theorem exists_next? (hrelated : Related c c') (hnext : next? p c = some d) :
    ∃ d', next? p' c' = some d' ∧ (step p' c').repainted = (step p c).repainted ∧
      Related d d' := by
  obtain ⟨-, hgoes⟩ := goes_iff.1 ⟨hnext, rfl⟩
  obtain ⟨x, hx⟩ := exists_fingerprint?_of_next? hnext
  -- the fingerprint of the second configuration tells that goals are left there, too
  have hx' : c'.fingerprint? = some (f x) := by rw [hlock.fingerprint hrelated, hx, Option.map_some]
  obtain ⟨-, hgoals', -⟩ := fingerprint?_eq_some_iff.1 hx'
  obtain ⟨d', hgoes', hkept⟩ := hlock.goes hrelated hgoes
  obtain ⟨hnext', hrepainted⟩ := goes_iff.2 ⟨hgoals', hgoes'⟩
  exact ⟨d', hnext', hrepainted, hkept⟩

/-! ### Whole runs -/

/-- **Runs in lock step end in the same way**, after as many steps. -/
theorem runFrom (fuel : Nat) (hseen : Evidence.Match f seen seen') (hrelated : Related c c') :
    (Machine.runFrom p fuel seen c = none → Machine.runFrom p' fuel seen' c' = none) ∧
      ∀ h, Machine.runFrom p fuel seen c = some h → Followed h.ending →
        ∃ h', Machine.runFrom p' fuel seen' c' = some h' ∧ h'.ending = h.ending := by
  induction fuel generalizing seen seen' c c' with
  | zero => exact ⟨fun _ ↦ rfl, fun h hrun ↦ by contradiction⟩
  | succ fuel ih =>
    by_cases hrep : seen.Repeats c
    · have hrep' := (hlock.repeats_iff hseen hrelated).2 hrep
      rw [runFrom_of_repeats hrep, runFrom_of_repeats hrep']
      refine ⟨fun hnone ↦ by contradiction, fun h hrun _ ↦ ⟨_, rfl, ?_⟩⟩
      obtain rfl := Option.some.inj hrun
      rfl
    · have hrep' := fun hrep' ↦ hrep ((hlock.repeats_iff hseen hrelated).1 hrep')
      rcases hend : (step p c).ending? with - | e
      · have hnext : next? p c = some (step p c).next := next?_eq_some_iff.2 ⟨hend, rfl⟩
        obtain ⟨d', hnext', hrepainted, hkept⟩ := hlock.exists_next? hrelated hnext
        obtain ⟨hend', rfl⟩ := next?_eq_some_iff.1 hnext'
        rw [runFrom_of_proceed hrep hend, runFrom_of_proceed hrep' hend', hrepainted]
        exact ih (hlock.match_update hseen hrelated _) hkept
      · rw [runFrom_of_ending hrep hend]
        refine ⟨fun hnone ↦ by contradiction, fun h hrun hfollowed ↦ ?_⟩
        obtain rfl := Option.some.inj hrun
        obtain ⟨t', hends'⟩ := hlock.ends hrelated hfollowed (ends_iff.1 ⟨hend, rfl⟩)
        exact ⟨_, runFrom_of_ending hrep' (ends_iff.2 hends').1, rfl⟩

end LockStep

end TileRobot.Machine
