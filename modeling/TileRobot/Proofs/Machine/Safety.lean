import TileRobot.Challenge
import TileRobot.Proofs.Machine.Faults

/-!
# Programs that cannot fault

A run faults when it takes up a call of a routine that does not exist, and in no other case if there
is a routine to start from. A program is closed when every call in it names one of its routines
(`Program.Closed`). So no run of a closed program with a routine to start from ends with a fault
(`Machine.ending_ne_faulted_of_run`), on whatever scene.

Programs that fit bounds are closed, hence so are all programs in which a challenge finds no fault.
-/

namespace TileRobot

namespace Program

variable {p : Program} {bounds : List Nat}

/-- A program is closed when every call in it names one of its routines. -/
def Closed (p : Program) : Prop :=
  ∀ r ∈ p.routines, ∀ i ∈ Routine.instructions r, ∀ t ∈ i.target?, t < p.size

theorem closed_of_fits (hp : p.Fits bounds) : p.Closed := by
  obtain ⟨hsize, hentries⟩ := hp
  intro r hr
  obtain ⟨bound, hentry⟩ := exists_mem_zip_of_mem hsize hr
  exact (hentries _ hentry).2

theorem size_pos_of_fits (hp : p.Fits bounds) (hbounds : bounds ≠ []) : 0 < p.size := by
  rw [hp.1]
  exact List.length_pos_iff.2 hbounds

end Program

namespace Machine

variable {p : Program} {s : Scene} {h : Halt} {fuel : Nat}

/-- **No run of a closed program ends with a fault**, if there is a routine to start from. -/
theorem ending_ne_faulted_of_run (hp : 0 < p.size) (hclosed : p.Closed)
    (hrun : run fuel s p = some h) (f : ProgramFault) : h.ending ≠ .faulted f := by
  intro hending
  obtain ⟨frame, i, target, htakes, hcall, hmissing, -⟩ :=
    (endsWith_faulted_iff_of_pos hp).1 ⟨fuel, h, hrun, hending⟩
  obtain ⟨r, hr, hi⟩ := htakes.exists_mem
  exact hmissing (hclosed r hr i hi target (Instruction.target?_eq_some_iff.2 hcall))

end Machine

namespace Challenge

variable {c : Challenge} {p : Program} {s : Scene} {h : Machine.Halt} {fuel : Nat}

/-- **A program in which a challenge finds no fault has none when it is run**, on whatever scene. -/
theorem ending_ne_faulted (hbounds : c.bounds ≠ []) (hp : c.fault? p = none)
    (hrun : Machine.run fuel s p = some h) (f : ProgramFault) : h.ending ≠ .faulted f := by
  have hfits := Program.fault?_eq_none_iff.1 hp
  exact Machine.ending_ne_faulted_of_run (Program.size_pos_of_fits hfits hbounds)
    (Program.closed_of_fits hfits) hrun f

end Challenge

end TileRobot
