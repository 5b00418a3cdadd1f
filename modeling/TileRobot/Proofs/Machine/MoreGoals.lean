import TileRobot.Proofs.Machine.LockStep
import TileRobot.Proofs.Machine.Replay

/-!
# Runs with more goals

What a program does depends on the goals in one way only: the machine halts when none is left. As
long as the scene with fewer goals has some left, so has the one with more, and the two machines
are in lock step (`lockStep_moreGoals`). Hence more goals change the ending of a run only where the
run with fewer goals solves the scene (`ending_of_more_goals`), and a program that visits them all
visits the fewer ones, too, and not later.
-/

namespace TileRobot

/-- With a member, a set of goals is not empty. -/
theorem Goals.isEmpty_eq_false_of_subset {g g' : Goals} (hg : g.isEmpty = false)
    (hsub : ∀ q ∈ g, q ∈ g') : g'.isEmpty = false := by
  by_contra hempty
  refine Bool.eq_false_iff.1 hg (Goals.isEmpty_iff.2 fun q hq ↦ ?_)
  exact Goals.isEmpty_iff.1 (Bool.of_not_eq_false hempty) q (hsub q hq)

namespace Machine

variable {p : Program} {c c' d : Config} {s t : Scene} {g g' : Goals} {e : Ending}

/-- The second configuration differs from the first in the goals only, of which it may have more
left. The first has some left. -/
def MoreGoals (c c' : Config) : Prop :=
  c.scene.goals.isEmpty = false ∧
    ∃ g, (∀ q ∈ c.scene.goals, q ∈ g) ∧ c' = ⟨c.scene.withGoals g, c.stack⟩

/-! ### One step -/

section Operation

variable {declared : Nat} {o : Operation} {b : Bool} {pushed : List Frame}

/-- What an operation does, it does with more goals, too. -/
theorem Acts.moreGoals (ha : Acts declared s o b t pushed) (hsub : ∀ q ∈ s.goals, q ∈ g) :
    ∃ g', (∀ q ∈ t.goals, q ∈ g') ∧
      Acts declared (s.withGoals g) o b (t.withGoals g') pushed := by
  rcases ha with ⟨hahead, hgoals⟩ | - | - | color | hcalled
  case forward =>
    have hleft : ∀ q ∈ (s.enter s.robot.ahead).goals, q ∈ g.erase s.robot.ahead := fun q hq ↦ by
      obtain ⟨hq, hne⟩ := Goals.mem_erase.1 hq
      exact Goals.mem_erase.2 ⟨hsub q hq, hne⟩
    exact ⟨g.erase s.robot.ahead, hleft,
      .forward hahead (Goals.isEmpty_eq_false_of_subset hgoals hleft)⟩
  case left => exact ⟨g, hsub, .left⟩
  case right => exact ⟨g, hsub, .right⟩
  case paint => exact ⟨g, hsub, .paint color⟩
  case call => exact ⟨g, hsub, .call hcalled⟩

/-- An operation that does not solve the scene with fewer goals ends the run with more as well. -/
theorem Stops.moreGoals (hs : Stops declared s o e t) (hne : e ≠ .finished .solved) (g : Goals) :
    Stops declared (s.withGoals g) o e (s.withGoals g) := by
  rcases hs with hahead | - | hmissing
  case blocked => exact .blocked hahead
  case arrived => contradiction
  case undeclared => exact .undeclared hmissing

end Operation

/-- **With more goals a program makes the same steps**, as long as it has not solved the scene with
fewer. -/
theorem lockStep_moreGoals (p : Program) :
    LockStep p p MoreGoals id fun e ↦ e ≠ .finished .solved where
  injective := Function.injective_id
  fingerprint := by
    intro c c' hc
    obtain ⟨hgoals, g, hsub, rfl⟩ := hc
    have hgoals' := Goals.isEmpty_eq_false_of_subset hgoals hsub
    obtain ⟨s, - | ⟨frame, below⟩⟩ := c
    · rfl
    · simp [Config.fingerprint?, Scene.withGoals, hgoals, hgoals']
  goes := by
    intro c c' b d hc hgoes
    obtain ⟨hgoals, g, hsub, rfl⟩ := hc
    rcases hgoes with ⟨htop, hidle⟩ | ⟨htop, hfilled, hguard, hacts⟩
    case passed => exact ⟨_, .passed htop hidle, hgoals, g, hsub, rfl⟩
    case acted =>
      obtain ⟨g', hsub', hacts'⟩ := hacts.moreGoals hsub
      exact ⟨_, .acted htop hfilled hguard hacts', hacts.isEmpty_goals hgoals, g', hsub', rfl⟩
  ends := by
    intro c c' e t hc hne hends
    obtain ⟨hgoals, g, hsub, rfl⟩ := hc
    have hgoals' := Goals.isEmpty_eq_false_of_subset hgoals hsub
    rcases hends with - | - | ⟨-, htop⟩ | ⟨-, htop, hfilled, hguard, hstops⟩
    case exhausted => exact ⟨_, .exhausted⟩
    case solved => contradiction
    case undeclared => exact ⟨_, .undeclared hgoals' htop⟩
    case stopped => exact ⟨_, .stopped hgoals' htop hfilled hguard (hstops.moreGoals hne g)⟩

/-! ### Whole runs -/

/-- Without goals the first step ends the run. -/
theorem run_of_isEmpty (hgoals : s.goals.isEmpty = true) (fuel : Nat) (p : Program) :
    run (fuel + 1) s p = some ⟨.finished .solved, s⟩ := by
  have hstep : step p (Config.start s) = .halt [] (Config.start s) (.finished .solved) :=
    step_of_isEmpty hgoals
  have hend : (step p (Config.start s)).ending? = some (.finished .solved) := by rw [hstep]; rfl
  rw [run, runFrom_of_ending (Evidence.not_repeats_empty _) hend, hstep]
  rfl

/-- **More goals change the ending of those runs only that solve the scene with fewer.** A run that
ends in another way ends in this way with more goals, too, and after as many steps; one that needs
more steps needs them with more goals, too. Consequently a program that solves the scene with more
goals solves it with fewer, and in no more steps. -/
theorem ending_of_more_goals (b : Board) (r : Robot) (p : Program) (g g' : Goals)
    (hsub : ∀ q ∈ g, q ∈ g') (fuel : Nat) :
    (run fuel ⟨b, r, g⟩ p = none → run fuel ⟨b, r, g'⟩ p = none) ∧
      (∀ h, run fuel ⟨b, r, g⟩ p = some h → h.ending ≠ .finished .solved →
        ∃ h', run fuel ⟨b, r, g'⟩ p = some h' ∧ h'.ending = h.ending) ∧
      ∀ h', run fuel ⟨b, r, g'⟩ p = some h' → h'.ending = .finished .solved →
        ∃ h, run fuel ⟨b, r, g⟩ p = some h ∧ h.ending = .finished .solved := by
  have hrun : (run fuel ⟨b, r, g⟩ p = none → run fuel ⟨b, r, g'⟩ p = none) ∧
      ∀ h, run fuel ⟨b, r, g⟩ p = some h → h.ending ≠ .finished .solved →
        ∃ h', run fuel ⟨b, r, g'⟩ p = some h' ∧ h'.ending = h.ending := by
    rcases hg : g.isEmpty with - | -
    · exact (lockStep_moreGoals p).runFrom fuel (Evidence.match_empty id) ⟨hg, g', hsub, rfl⟩
    · -- without goals the scene is solved at once
      rcases fuel with - | fuel
      · exact ⟨fun _ ↦ rfl, fun h hrun ↦ by contradiction⟩
      · rw [run_of_isEmpty (s := ⟨b, r, g⟩) hg]
        refine ⟨fun hnone ↦ by contradiction, fun h hrun hne ↦ ?_⟩
        obtain rfl := Option.some.inj hrun
        contradiction
  obtain ⟨hnone, hsome⟩ := hrun
  refine ⟨hnone, hsome, fun h' hrun' hsolved ↦ ?_⟩
  rcases hrun : run fuel ⟨b, r, g⟩ p with - | h
  · rw [hnone hrun] at hrun'
    contradiction
  · refine ⟨h, rfl, ?_⟩
    by_contra hne
    obtain ⟨k, hk, hsame⟩ := hsome h hrun hne
    obtain rfl : h' = k := Option.some.inj (hrun'.symm.trans hk)
    exact hne (hsame.symm.trans hsolved)

/-- Three green tiles in a row. -/
def greenRow : Board := ⟨3, 1, #[some .green, some .green, some .green], rfl⟩

/-- Goes two tiles on. -/
def twoOn : Program := ⟨[[some ⟨.forward, none⟩, some ⟨.forward, none⟩]]⟩

/-- Goes one tile on and one to the left. -/
def onAndLeft : Program :=
  ⟨[[some ⟨.forward, none⟩, some ⟨.left, none⟩, some ⟨.forward, none⟩]]⟩

/-- A run that falls off the row before the far goal, with a goal on its way and without, and a run
that visits both goals. -/
theorem ending_of_more_goals_greenRow :
    (∃ h h', run 3 ⟨greenRow, ⟨⟨0, 0⟩, .east⟩, .ofList [⟨0, 2⟩]⟩ onAndLeft = some h ∧
        h.ending = .finished .fellOff ∧
        run 3 ⟨greenRow, ⟨⟨0, 0⟩, .east⟩, .ofList [⟨0, 1⟩, ⟨0, 2⟩]⟩ onAndLeft = some h' ∧
        h'.ending = .finished .fellOff) ∧
      ∃ h h', run 2 ⟨greenRow, ⟨⟨0, 0⟩, .east⟩, .ofList [⟨0, 1⟩, ⟨0, 2⟩]⟩ twoOn = some h' ∧
        h'.ending = .finished .solved ∧
        run 2 ⟨greenRow, ⟨⟨0, 0⟩, .east⟩, .ofList [⟨0, 2⟩]⟩ twoOn = some h ∧
        h.ending = .finished .solved := by
  have hsub : ∀ q ∈ Goals.ofList [⟨0, 2⟩], q ∈ Goals.ofList [⟨0, 1⟩, ⟨0, 2⟩] := by
    intro q hq
    rw [Goals.mem_ofList] at hq ⊢
    exact List.mem_cons_of_mem _ hq
  have hfall : HaltsAt onAndLeft
      (Config.start ⟨greenRow, ⟨⟨0, 0⟩, .east⟩, .ofList [⟨0, 2⟩]⟩) 2
      ⟨.finished .fellOff, ⟨greenRow, ⟨⟨0, 1⟩, .north⟩, .ofList [⟨0, 2⟩]⟩⟩ := ⟨_, rfl, rfl, rfl⟩
  have hboth : HaltsAt twoOn
      (Config.start ⟨greenRow, ⟨⟨0, 0⟩, .east⟩, .ofList [⟨0, 1⟩, ⟨0, 2⟩]⟩) 1
      ⟨.finished .solved, ⟨greenRow, ⟨⟨0, 2⟩, .east⟩, ∅⟩⟩ := ⟨_, rfl, rfl, rfl⟩
  have hrun := run_of_haltsAt_of_nodup hfall (by decide)
  have hrun' := run_of_haltsAt_of_nodup hboth (by decide)
  obtain ⟨-, hfell, -⟩ := ending_of_more_goals greenRow ⟨⟨0, 0⟩, .east⟩ onAndLeft _ _ hsub 3
  obtain ⟨-, -, hsolved⟩ := ending_of_more_goals greenRow ⟨⟨0, 0⟩, .east⟩ twoOn _ _ hsub 2
  obtain ⟨h', hrunMore, hend⟩ := hfell _ hrun (by decide)
  obtain ⟨h, hrunFewer, hend'⟩ := hsolved _ hrun' rfl
  exact ⟨⟨_, h', hrun, rfl, hrunMore, hend⟩, h, _, hrun', rfl, hrunFewer, hend'⟩

end Machine

end TileRobot
