import TileRobot.Proofs.Machine.Safety
import TileRobot.Proofs.Search.Account
import TileRobot.Proofs.Space.Challenge
import TileRobot.Proofs.Space.Restart

/-!
# Searches that cannot fault

A search would stop at a program that faults when it is run. All programs that it tries are
candidates of the challenge, wherever the cursor has come to (`fault?_of_current?`), and a challenge
finds no fault in its candidates. So a search for a challenge with a routine never stops for a fault
(`searchFrom_ne_fault`), and what it finds is a program without faults whose run solves the scene
(`run_of_search_found`).
-/

namespace TileRobot.Search

variable {fuel k start attempts : Nat} {s : Scene} {p : Program} {challenge : Challenge}
  {clock : Nat → Id Nat} {limits : Limits} {limit? deadline? : Option Nat}

/-- Every program that a search comes to is a candidate, in which there is no fault. -/
theorem fault?_of_current? (hstart : start < indexLimit)
    (hp : ((challenge.space.cursor start).advanceBy k).current? = some p) :
    challenge.fault? p = none :=
  (Challenge.admits_iff.1 (Space.admits_of_current? hstart hp)).1

theorem run_of_trial_eq_fault {f : ProgramFault} (ht : trial fuel s p = .error (.fault f)) :
    ∃ h, Machine.run fuel s p = some h ∧ h.ending = .faulted f := by
  simp only [trial] at ht
  rcases hrun : Machine.run fuel s p with - | ⟨outcome | fault, t⟩ <;> rw [hrun] at ht
  · cases ht
  · cases ht
  · exact ⟨_, rfl, congrArg Machine.Ending.faulted (Obstacle.fault.inj (Except.error.inj ht))⟩

/-- **No search stops for a fault**, if the challenge has a routine. -/
theorem searchFrom_ne_fault (hbounds : challenge.bounds ≠ []) (hstart : start < indexLimit)
    (f : ProgramFault) : searchFrom clock fuel challenge.scene limit? deadline?
      ⟨challenge.space.cursor start, Space.valid_cursor hstart⟩ k ≠ .error (.fault f) := by
  intro hsearch
  obtain ⟨m, -, p, hp, ht⟩ := searchFrom_eq_iff.1 hsearch
  obtain ⟨h, hrun, hfaulted⟩ := run_of_trial_eq_fault ht
  exact Challenge.ending_ne_faulted hbounds (fault?_of_current? hstart hp) hrun f hfaulted

theorem search_ne_fault (hbounds : challenge.bounds ≠ []) (clock : Nat → Id Nat) (fuel : Nat)
    (limits : Limits) (f : ProgramFault) :
    search clock fuel challenge limits ≠ .error (.fault f) :=
  searchFrom_ne_fault hbounds limits.start_lt f

/-- **What a search finds solves the scene**, within the steps that were allowed, and has no
fault. -/
theorem run_of_search_found
    (hfound : search clock fuel challenge limits = .ok (.found p attempts)) :
    challenge.fault? p = none ∧
      ∃ h, Machine.run fuel challenge.scene p = some h ∧ h.ending = .finished .solved := by
  have hdescribes := describes_search clock fuel challenge limits
  rw [hfound] at hdescribes
  obtain ⟨m, -, -, hp, ht⟩ := hdescribes
  obtain ⟨h, outcome, hrun, hending, hsolved⟩ := trial_eq_ok_iff.1 ht
  obtain rfl := of_decide_eq_true hsolved.symm
  exact ⟨fault?_of_current? limits.start_lt hp, h, hrun, hending⟩

end TileRobot.Search
