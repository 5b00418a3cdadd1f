import TileRobot.Proofs.Machine.Termination
import TileRobot.Proofs.Search.Exhaustive
import TileRobot.Proofs.Search.Resume
import TileRobot.Proofs.Search.Safety

/-!
# Searches that come to their end

A search waits for each of its runs. If all programs from its cursor on have runs that come to their
end, some number of steps suffices for all of these, and the search comes to a result
(`exists_searchFrom_ne_unfinished`). The runs of a challenge that lets at most one color be painted
do come to their end, so a search without limits finds a program or tries them all
(`search_terminates`).
-/

namespace TileRobot.Search

open Machine (RepaintsAt)
open Space (Cursor)

variable {s : Scene} {challenge : Challenge} {p : Program} {clock : Nat → Id Nat}
  {fuel k n : Nat} {c : { c : Cursor // c.Valid }}

/-- A run that comes to its end is a trial that does. -/
theorem trial_ne_unfinished {h : Machine.Halt} (hrun : Machine.run fuel s p = some h) :
    trial fuel s p ≠ .error .unfinished := by
  obtain ⟨outcome | fault, t⟩ := h <;> simp [trial, hrun]

/-- **If the runs come to their end, so does the search**: the longest of them tells how many steps
suffice. Only those count that the limits let the search come to. -/
theorem exists_searchFrom_ne_unfinished (clock : Nat → Id Nat) (limit? deadline? : Option Nat)
    (hruns : ∀ j, (∀ i < j, ¬ Stops clock limit? deadline? (k + i + 1)) →
      ∀ p, (c.1.advanceBy j).current? = some p → ∃ fuel h, Machine.run fuel s p = some h) :
    ∃ fuel, searchFrom clock fuel s limit? deadline? c k ≠ .error .unfinished := by
  induction c using Cursor.induction_advance generalizing k with
  | step c ih =>
    rcases hp : c.1.current? with - | p
    · refine ⟨0, ?_⟩
      rw [searchFrom_of_none hp]
      exact nofun
    · obtain ⟨m, h, hrun⟩ := hruns 0 (fun i hi ↦ absurd hi (Nat.not_lt_zero i)) p hp
      have hm := trial_ne_unfinished hrun
      rcases ht : trial m s p with obstacle | - | -
      · refine ⟨m, ?_⟩
        rw [searchFrom_of_error hp ht]
        exact fun hunfinished ↦ hm (ht.trans (congrArg _ (Except.error.inj hunfinished)))
      · by_cases hstops : Stops clock limit? deadline? (k + 1)
        · refine ⟨m, ?_⟩
          rw [searchFrom_of_stops hp ht hstops]
          exact nofun
        · obtain ⟨n, hn⟩ := ih (hp ▸ rfl) (k := k + 1) fun j hgo ↦ by
            refine hruns (j + 1) fun i hi ↦ ?_
            rcases i with - | i
            · exact hstops
            · have hgo' := hgo i (Nat.lt_of_succ_lt_succ hi)
              rwa [Nat.add_right_comm k 1 i, Nat.add_assoc k i 1] at hgo'
          refine ⟨max m n, ?_⟩
          rw [searchFrom_of_goesOn hp ((trial_of_le (Nat.le_max_left m n) hm).trans ht) hstops]
          exact (searchFrom_of_le (Nat.le_max_right m n) hn).trans_ne hn
      · refine ⟨m, ?_⟩
        rw [searchFrom_of_solved hp ht]
        exact nofun

/-- Without limits nothing stops a search. -/
theorem searchFrom_none_ne_limitReached {attempts next : Nat} :
    searchFrom clock fuel s none none c k ≠ .ok (.limitReached attempts next) := by
  intro hsearch
  obtain ⟨m, -, -, -, -, hstops⟩ := searchFrom_eq_iff.1 hsearch
  exact not_stops_none clock _ hstops

/-- A program that was found stands below the number of programs. -/
theorem attempts_lt_of_found {space : Space} {attempts : Nat} (hn : space.size < indexLimit)
    (hdescribes : Describes fuel s (space.cursor 0) 0 (.ok (.found p attempts))) :
    attempts < space.size := by
  obtain ⟨m, hattempts, hfailed, hp, -⟩ := hdescribes
  have hle := hfailed.le_size hn (Nat.zero_le _)
  rw [Space.advanceBy_cursor hle (by omega)] at hp
  by_contra hge
  rw [(Space.current?_cursor_eq_none_iff (by omega)).2 (by omega)] at hp
  contradiction

/-- What a search without limits comes to, if it comes to its end. -/
theorem search_cases (hsize : challenge.space.size? = some n)
    (hsearch : search clock fuel challenge {} ≠ .error .unfinished) :
    (∃ p attempts, attempts < n ∧ search clock fuel challenge {} = .ok (.found p attempts)) ∨
      search clock fuel challenge {} = .ok (.exhausted n) ∨
      challenge.bounds = [] ∧ ∃ fault, search clock fuel challenge {} = .error (.fault fault) := by
  obtain ⟨rfl, hn⟩ := Space.size_of_size?_eq_some hsize
  have hdescribes := describes_search clock fuel challenge {}
  rcases hresult : search clock fuel challenge {} with
    (fault | -) | ⟨p, attempts⟩ | attempts | ⟨attempts, next⟩
  case error.fault =>
    refine Or.inr (Or.inr ⟨?_, fault, rfl⟩)
    by_contra hbounds
    exact search_ne_fault hbounds clock fuel {} fault hresult
  case error.unfinished => exact absurd hresult hsearch
  case ok.found =>
    rw [hresult] at hdescribes
    exact Or.inl ⟨p, attempts, attempts_lt_of_found hn hdescribes, rfl⟩
  case ok.exhausted =>
    rw [hresult] at hdescribes
    obtain ⟨hattempts, -⟩ := attempts_of_exhausted hn (Nat.zero_le _) hdescribes
    rw [hattempts, Nat.zero_add, Nat.sub_zero]
    exact Or.inr (Or.inl rfl)
  case ok.limitReached => exact absurd hresult searchFrom_none_ne_limitReached

/-- A program of a challenge with at most one color to paint with comes to its end. -/
theorem exists_run_of_admits
    (hpaints : ∀ color ∈ challenge.paints, ∀ color' ∈ challenge.paints, color = color')
    (hp : challenge.space.Admits p) (s : Scene) : ∃ fuel h, Machine.run fuel s p = some h := by
  have hpaintsWith := (Challenge.admits_iff.1 hp).2.2
  obtain ⟨color, hcolor⟩ : ∃ color, ∀ color' ∈ challenge.paints, color' ∈ [color] := by
    generalize challenge.paints = paints at hpaints ⊢
    rcases paints with - | ⟨color, rest⟩
    · exact ⟨.red, fun _ hnone ↦ absurd hnone List.not_mem_nil⟩
    · exact ⟨color, fun color' hcolor' ↦
        List.mem_singleton.2 (hpaints color' hcolor' color List.mem_cons_self)⟩
  exact Machine.exists_run_of_paintsWith (hpaintsWith.mono hcolor) s

/-- **With one color to paint with every search comes to its end.** If a challenge has at most one
color and so many candidates, all of these have runs that come to their end, and from some number of
steps on a search without limits comes to one and the same result, whatever the clock: it finds a
program, or it has made as many attempts as there are candidates, or it stops for the fault of
having no routine to run. In general, the run of any program that paints with one color only comes
to its end on every scene, and no more of its steps change the color of a tile than there are
passable positions. -/
theorem search_terminates (hsize : challenge.space.size? = some n)
    (hpaints : ∀ color ∈ challenge.paints, ∀ color' ∈ challenge.paints, color = color') :
    (∀ i < n, ∃ p, (challenge.space.cursor i).current? = some p ∧
        ∃ fuel h, Machine.run fuel challenge.scene p = some h) ∧
      (∃ fuel result,
        (∀ (clock : Nat → Id Nat) (m : Nat), fuel ≤ m → search clock m challenge {} = result) ∧
          ((∃ p attempts, attempts < n ∧ result = .ok (.found p attempts)) ∨
            result = .ok (.exhausted n) ∨
              challenge.bounds = [] ∧ ∃ fault, result = .error (.fault fault))) ∧
        ∀ (s : Scene) (p : Program) (color : Color), p.PaintsWith [color] →
          (∃ fuel h, Machine.run fuel s p = some h) ∧
            ∀ steps : Finset Nat, (∀ k ∈ steps, RepaintsAt p (Machine.Config.start s) k) →
              steps.card ≤ s.board.passables.card := by
  obtain ⟨-, hn⟩ := Space.size_of_size?_eq_some hsize
  refine ⟨fun i hi ↦ ?_, ?_, fun s p color hp ↦ ⟨?_, fun steps hsteps ↦ ?_⟩⟩
  · obtain ⟨rfl, -⟩ := Space.size_of_size?_eq_some hsize
    obtain ⟨p, hp⟩ := Option.ne_none_iff_exists'.1 fun hnone ↦
      Nat.not_le.2 hi ((Space.current?_cursor_eq_none_iff (hi.trans hn)).1 hnone)
    have hadmits := Space.admits_of_current? (k := 0) (hi.trans hn) hp
    exact ⟨p, hp, exists_run_of_admits hpaints hadmits challenge.scene⟩
  · have hstart : 0 < indexLimit := Nat.zero_lt_of_lt hn
    obtain ⟨fuel, hfuel⟩ := exists_searchFrom_ne_unfinished (fun _ ↦ 0) none none
      (c := ⟨challenge.space.cursor 0, Space.valid_cursor hstart⟩) (k := 0) (fun j _ p hp ↦
        exists_run_of_admits hpaints (Space.admits_of_current? hstart hp) challenge.scene)
    refine ⟨fuel, search (fun _ ↦ 0) fuel challenge {}, fun clock m hm ↦ ?_,
      search_cases hsize hfuel⟩
    exact searchFrom_of_not_stopped clock (searchFrom_of_le hm hfuel)
      fun _ _ ↦ searchFrom_none_ne_limitReached
  · exact Machine.exists_run_of_paintsWith hp s
  · exact Machine.card_le_of_repaintsAt hp (c := Machine.Config.start s) hsteps

/-- One red tile that may be painted green: the search through its 421 programs comes to its end,
and so does the run of the program that paints the tile and starts again. -/
theorem search_terminates_redTile : Challenge.redTile.space.size? = some 421 ∧
    (∀ i < 421, ∃ p, (Challenge.redTile.space.cursor i).current? = some p ∧
        ∃ fuel h, Machine.run fuel Challenge.redTile.scene p = some h) ∧
      (∃ fuel result,
        (∀ (clock : Nat → Id Nat) (m : Nat), fuel ≤ m →
          search clock m Challenge.redTile {} = result) ∧
        ((∃ p attempts, attempts < 421 ∧ result = .ok (.found p attempts)) ∨
          result = .ok (.exhausted 421))) ∧
        ∃ fuel h, Machine.run fuel Challenge.redTile.scene
          ⟨[[some ⟨.paint .green, some .red⟩, some ⟨.call 0, none⟩]]⟩ = some h := by
  have hsize : Challenge.redTile.space.size? = some 421 := by decide
  obtain ⟨hruns, ⟨fuel, result, hresult, hcases⟩, hprograms⟩ :=
    search_terminates hsize (by decide)
  refine ⟨hsize, hruns, ⟨fuel, result, hresult, ?_⟩, (hprograms _ _ .green (by decide)).1⟩
  exact hcases.imp_right fun h ↦ h.resolve_right fun hbounds ↦ absurd hbounds.1 (by decide)

end TileRobot.Search
