import TileRobot.Proofs.Search.Termination

/-!
# What the limits let pass

The limits are looked at after an attempt has failed, and before it is known whether a program is
left to be tried. Both shows in the results.

* A search makes one attempt before it looks at its limits, also if it is allowed none. Otherwise
  the limit on the attempts is kept (`attempts_le_iff_of_yields`).
* A search that has tried everything does not say so when it is stopped just then: the index it
  names as the next is past the last program (`exhausted_iff_triedAll`).
-/

namespace TileRobot.Search

open Space (Cursor)

variable {fuel limit m n start : Nat} {s : Scene} {challenge : Challenge} {clock : Nat → Id Nat}
  {limit? deadline? : Option Nat} {result : Result}

/-- From its start on, a search passes over programs that fail, unless the limits stop it after one
of them. -/
theorem passesOver_start_iff {c : Cursor} : PassesOver clock limit? deadline? fuel s c 0 m ↔
    Failed fuel s c m ∧ ∀ k, 0 < k → k ≤ m → ¬ Stops clock limit? deadline? k := by
  constructor
  · intro ⟨hfailed, hgo⟩
    refine ⟨hfailed, fun k hpos hk ↦ ?_⟩
    have hgo' := hgo (k - 1) (by omega)
    rwa [Nat.zero_add, Nat.sub_add_cancel hpos] at hgo'
  · intro ⟨hfailed, hgo⟩
    exact ⟨hfailed, fun j hj ↦ hgo (0 + j + 1) (by omega) (by omega)⟩

/-- A search from its start on is told by how many programs fail and where it ends. -/
theorem searchFrom_start_eq_iff {c : { c : Cursor // c.Valid }}
    {result : Except Obstacle Result} :
    searchFrom clock fuel s limit? deadline? c 0 = result ↔ ∃ m, Failed fuel s c.1 m ∧
      (∀ k, 0 < k → k ≤ m → ¬ Stops clock limit? deadline? k) ∧
        EndsAt clock limit? deadline? fuel s (c.1.advanceBy m) m result := by
  simp only [searchFrom_eq_iff, passesOver_start_iff, Nat.zero_add, and_assoc]

/-- What a stopped search has behind it: the programs that it passed over, and the one after which
it was stopped. -/
theorem failed_of_limitReached {attempts next : Nat}
    (hstopped : Yields clock challenge limit? deadline? start (.ok (.limitReached attempts next))) :
    0 < attempts ∧ Stops clock limit? deadline? attempts ∧
      (∃ fuel, Failed fuel challenge.scene (challenge.space.cursor start) attempts) ∧
        next = start + attempts := by
  obtain ⟨-, hstart, fuel, hsearch⟩ := hstopped
  obtain ⟨m, hpassed, -, rfl, hindex, hlast, hstops⟩ := searchFrom_start_eq_iff.1 hsearch
  have hfailed := hpassed.concat hlast
  have hadvance := congrArg Cursor.index (Cursor.advanceBy_add (challenge.space.cursor start) m 1)
  refine ⟨Nat.succ_pos m, hstops, ⟨fuel, hfailed⟩, ?_⟩
  exact (hindex.trans hadvance.symm).trans hfailed.index_advanceBy

/-! ### The number of attempts -/

theorem stops_of_limit_le (hle : limit ≤ n) : Stops clock (some limit) deadline? n :=
  Or.inl ⟨limit, rfl, hle⟩

/-- What is passed over is within the limit. -/
theorem eq_zero_or_lt_of_goesOn
    (hgo : ∀ k, 0 < k → k ≤ m → ¬ Stops clock (some limit) deadline? k) : m = 0 ∨ m < limit := by
  by_contra hnot
  exact hgo m (by omega) le_rfl (stops_of_limit_le (show limit ≤ m by omega))

/-- A search oversteps its limit only by the one attempt that it always makes. -/
theorem attempts_le_or {c : { c : Cursor // c.Valid }}
    (hsearch : searchFrom clock fuel s (some limit) deadline? c 0 = .ok result) :
    result.attempts ≤ limit ∨ limit = 0 ∧ result.attempts = 1 ∧
      ∃ p, c.1.current? = some p ∧ trial fuel s p = .ok false := by
  obtain ⟨m, -, hgo, hends⟩ := searchFrom_start_eq_iff.1 hsearch
  have hm := eq_zero_or_lt_of_goesOn hgo
  rcases result with ⟨p, a⟩ | a | ⟨a, next⟩
  case found =>
    obtain ⟨ha, -, -⟩ := hends
    exact Or.inl (show a ≤ limit by omega)
  case exhausted =>
    obtain ⟨ha, -⟩ := hends
    exact Or.inl (show a ≤ limit by omega)
  case limitReached =>
    obtain ⟨ha, -, hlast, -⟩ := hends
    by_cases hover : a ≤ limit
    · exact Or.inl hover
    · -- nothing was passed over, so the search ended at the program where it started
      obtain rfl : m = 0 := by omega
      exact Or.inr ⟨by omega, show a = 1 by omega, hlast⟩

/-- If a search comes to a result, its first trial fails exactly if the first program does, however
many steps it takes for that. -/
theorem exists_trial_iff_failsAt (hstart : start < indexLimit)
    (hsearch : searchFrom clock fuel challenge.scene limit? deadline?
      ⟨challenge.space.cursor start, Space.valid_cursor hstart⟩ 0 = .ok result) :
    (∃ p, (challenge.space.cursor start).current? = some p ∧
      trial fuel challenge.scene p = .ok false) ↔ FailsAt challenge start := by
  constructor
  · intro ⟨p, hp, ht⟩
    obtain ⟨outcome, hends, hfalse⟩ := exists_endsWith_of_trial ht
    exact ⟨p, outcome, hp, hends, of_decide_eq_false hfalse.symm⟩
  · intro ⟨p, outcome, hp, ⟨fuel', h, hrun, hending⟩, hne⟩
    refine ⟨p, hp, ?_⟩
    rcases ht : trial fuel challenge.scene p with obstacle | b
    · rw [searchFrom_of_error hp ht] at hsearch
      contradiction
    · obtain ⟨k, outcome', hrun', hending', hb⟩ := trial_eq_ok_iff.1 ht
      obtain rfl : h = k := Machine.run_unique hrun hrun'
      obtain rfl : outcome = outcome' := Machine.Ending.finished.inj (hending.symm.trans hending')
      rw [hb, decide_eq_false hne]

/-- The index that a stopped search names is not beyond the one to which the limit lets the cursor
come. -/
theorem next_le_index_advanceBy {attempts next : Nat}
    (hstopped : Yields clock challenge limit? deadline? start (.ok (.limitReached attempts next)))
    (hle : attempts ≤ m) : next ≤ ((challenge.space.cursor start).advanceBy m).index := by
  obtain ⟨-, -, ⟨_, hfailed⟩, rfl⟩ := failed_of_limitReached hstopped
  obtain ⟨k, rfl⟩ := Nat.exists_eq_add_of_le hle
  rw [Cursor.advanceBy_add]
  exact hfailed.index_advanceBy.symm.trans_le (Cursor.index_le_index_advanceBy _ k)

/-- **The limit on the attempts is kept, except that one attempt is always made.** Whatever the
clock, the time and the start are, a search with a limit comes to a result with at most so many
failed attempts, or with one: the limit is overstepped exactly if it allows no attempt and the
program at the start fails. If the challenge has a routine, the search does come to a result, as
long as the runs of the programs come to their end that it tries within the limit and the indices
have places of 128 bits to which the cursor comes. -/
theorem attempts_le_iff_of_yields (challenge : Challenge) (clock : Nat → Id Nat) (limit : Nat)
    (deadline? : Option Nat) (start : Nat) :
    (∀ result, Yields clock challenge (some limit) deadline? start (.ok result) →
      result.attempts ≤ max limit 1 ∧
        (result.attempts ≤ limit ↔ ¬ (limit = 0 ∧ FailsAt challenge start))) ∧
      (challenge.bounds ≠ [] →
        ((challenge.space.cursor start).advanceBy (max limit 1)).index < indexLimit →
        (∀ j < max limit 1, ∀ p, ((challenge.space.cursor start).advanceBy j).current? = some p →
          ∃ fuel h, Machine.run fuel challenge.scene p = some h) →
        ∃ result, Yields clock challenge (some limit) deadline? start (.ok result) ∧
          ∀ attempts next, result = .limitReached attempts next → next < indexLimit) := by
  constructor
  · intro result ⟨_, hstart, fuel, hsearch⟩
    have hcases := attempts_le_or hsearch
    have hfirst := exists_trial_iff_failsAt hstart hsearch
    refine ⟨by omega, fun hle ⟨hzero, hfails⟩ ↦ ?_, fun hnot ↦ ?_⟩
    · -- with no attempt allowed, a search is stopped after the first
      obtain ⟨p, hp, ht⟩ := hfirst.2 hfails
      rw [searchFrom_of_stops hp ht (stops_of_limit_le (by omega))] at hsearch
      obtain rfl := Except.ok.inj hsearch
      exact Nat.not_succ_le_zero 0 (hle.trans_eq hzero)
    · rcases hcases with hle | ⟨hzero, -, hfails⟩
      · exact hle
      · exact absurd ⟨hzero, hfirst.1 hfails⟩ hnot
  · intro hbounds hindex hruns
    have hstart : start < indexLimit := (Cursor.index_le_index_advanceBy _ _).trans_lt hindex
    obtain ⟨fuel, hfuel⟩ := exists_searchFrom_ne_unfinished (k := 0) clock (some limit) deadline?
      (c := ⟨challenge.space.cursor start, Space.valid_cursor hstart⟩) fun j hgo ↦ by
        refine hruns j ?_
        rcases j with - | j
        · omega
        · have hlt : ¬ limit ≤ 0 + j + 1 := fun hle ↦ hgo j j.lt_succ_self (stops_of_limit_le hle)
          omega
    rcases hsearch : searchFrom clock fuel challenge.scene (some limit) deadline?
      ⟨challenge.space.cursor start, Space.valid_cursor hstart⟩ 0 with (fault | -) | result
    · exact absurd hsearch (searchFrom_ne_fault hbounds hstart fault)
    · exact absurd hsearch hfuel
    · refine ⟨result, ⟨nofun, hstart, fuel, hsearch⟩, fun attempts next hstopped ↦ ?_⟩
      subst hstopped
      have hle : attempts ≤ max limit 1 := by
        rcases attempts_le_or hsearch with hle | ⟨-, hone, -⟩
        · exact hle.trans (Nat.le_max_left limit 1)
        · exact hone.trans_le (Nat.le_max_right limit 1)
      exact (next_le_index_advanceBy ⟨nofun, hstart, fuel, hsearch⟩ hle).trans_lt hindex

/-- From the call that is skipped on, one attempt is allowed and one is made. -/
theorem attempts_le_oneStep :
    Yields (fun _ ↦ (0 : Nat)) oneStep (some 1) none 8 (.ok (.limitReached 1 9)) ∧
      (Result.limitReached 1 9).attempts ≤ 1 ∧
        ∃ result, Yields (fun _ ↦ (0 : Nat)) oneStep (some 1) none 8 (.ok result) ∧
          ∀ attempts next, result = .limitReached attempts next → next < indexLimit := by
  have hlimit := attempts_le_iff_of_yields oneStep (fun _ ↦ (0 : Nat)) 1 none 8
  obtain ⟨-, hle⟩ := hlimit.1 _ yields_oneStep_of_limit
  have hindex : ((oneStep.space.cursor 8).advanceBy (max 1 1)).index < indexLimit := by
    rw [Space.advanceBy_cursor (by decide) (by decide)]
    decide
  refine ⟨yields_oneStep_of_limit, hle.2 fun hnone ↦ absurd hnone.1 (by decide),
    hlimit.2 (by decide) hindex fun j hj p hp ↦ ?_⟩
  obtain rfl : j = 0 := by omega
  obtain rfl := Option.some.inj ((current?_oneStep (d := 7) rfl).symm.trans hp)
  obtain ⟨h, -, hrun, -⟩ := trial_eq_ok_iff.1 trial_oneStep_of_skipped
  exact ⟨2, h, hrun⟩

/-- No attempt is allowed in `apart`, and one is made. -/
theorem attempts_gt_limit_apart :
    search (fun _ ↦ (0 : Id Nat)) 2 apart { attempts? := some 0 } = .ok (.limitReached 1 1) ∧
      ¬ (Result.limitReached 1 1).attempts ≤ 0 := by
  have hindex : (apart.space.cursor 0).advance.index = 1 := congrArg Cursor.index advance_apart
  refine ⟨?_, by decide⟩
  rw [← hindex]
  exact searchFrom_of_stops current?_apart trial_apart (stops_of_limit_le (Nat.zero_le 1))

/-! ### Searches that have tried everything -/

/-- From the index on, so many programs have been tried, each of them fails, and none is left. -/
structure TriedAll (challenge : Challenge) (start n : Nat) : Prop where
  /-- Some number of steps suffices for all trials to fail. -/
  failed : ∃ fuel, Failed fuel challenge.scene (challenge.space.cursor start) n
  /-- There is no program after these. -/
  nothingLeft : ((challenge.space.cursor start).advanceBy n).current? = none

/-- The searches that come to the end of the space. -/
theorem yields_exhausted_iff : Yields clock challenge limit? deadline? start (.ok (.exhausted n)) ↔
    start < indexLimit ∧ TriedAll challenge start n ∧
      ∀ k, 0 < k → k ≤ n → ¬ Stops clock limit? deadline? k := by
  constructor
  · intro ⟨_, hstart, fuel, hsearch⟩
    obtain ⟨n, hfailed, hgo, rfl, hnone⟩ := searchFrom_start_eq_iff.1 hsearch
    exact ⟨hstart, ⟨⟨fuel, hfailed⟩, hnone⟩, hgo⟩
  · intro ⟨hstart, ⟨⟨fuel, hfailed⟩, hnone⟩, hgo⟩
    exact ⟨nofun, hstart, fuel, searchFrom_start_eq_iff.2 ⟨n, hfailed, hgo, rfl, hnone⟩⟩

/-- Whether everything has been tried shows at the index that a stopped search names. -/
theorem current?_next_eq_none_iff {attempts next : Nat}
    (hstopped : Yields clock challenge limit? deadline? start (.ok (.limitReached attempts next)))
    (hnext : next < indexLimit) :
    (challenge.space.cursor next).current? = none ↔ TriedAll challenge start attempts := by
  obtain ⟨-, -, ⟨fuel, hfailed⟩, rfl⟩ := failed_of_limitReached hstopped
  rw [← hfailed.advanceBy_cursor hnext le_rfl]
  exact ⟨fun hnone ↦ ⟨⟨fuel, hfailed⟩, hnone⟩, TriedAll.nothingLeft⟩

/-- If everything has been tried and the limits do not stop the search just then, it says so. -/
theorem exists_eq_exhausted_iff
    (hyields : Yields clock challenge limit? deadline? start (.ok result)) :
    (∃ n, result = .exhausted n) ↔ TriedAll challenge start result.attempts ∧
      (result.attempts = 0 ∨ ¬ Stops clock limit? deadline? result.attempts) := by
  constructor
  · intro ⟨n, hresult⟩
    subst hresult
    obtain ⟨-, htried, hgo⟩ := yields_exhausted_iff.1 hyields
    exact ⟨htried, n.eq_zero_or_pos.imp_right fun hpos ↦ hgo n hpos le_rfl⟩
  · intro ⟨htried, hgo⟩
    rcases result with ⟨p, a⟩ | a | ⟨a, next⟩
    case found =>
      -- there is a program at the end, the one that was found
      obtain ⟨-, hstart, fuel, hsearch⟩ := hyields
      obtain ⟨a, -, -, rfl, hp, -⟩ := searchFrom_start_eq_iff.1 hsearch
      have hnone : ((challenge.space.cursor start).advanceBy a).current? = none :=
        htried.nothingLeft
      rw [hnone] at hp
      contradiction
    case exhausted => exact ⟨a, rfl⟩
    case limitReached =>
      obtain ⟨hpos, hstops, -⟩ := failed_of_limitReached hyields
      rcases hgo with hzero | hgo
      · exact absurd hzero hpos.ne'
      · exact absurd hstops hgo

/-- **A search says that everything has failed, unless it is stopped just then.** Whatever the
limits, the clock and the start are, a search ends exhausted exactly if it has tried all programs
from its start on, each of them fails, and the limits do not stop it before or after the last of
them. So a search that comes to a result is exhausted exactly if everything has been tried and the
limits do not stop it after so many attempts; and if it was stopped by them, there is a program at
the index that it names as the next exactly if not everything has been tried. -/
theorem exhausted_iff_triedAll (challenge : Challenge) (clock : Nat → Id Nat)
    (limit? deadline? : Option Nat) (start : Nat) :
    (∀ n, Yields clock challenge limit? deadline? start (.ok (.exhausted n)) ↔
      start < indexLimit ∧ TriedAll challenge start n ∧
        ∀ k, 0 < k → k ≤ n → ¬ Stops clock limit? deadline? k) ∧
      (∀ result, Yields clock challenge limit? deadline? start (.ok result) →
        ((∃ n, result = .exhausted n) ↔ TriedAll challenge start result.attempts ∧
          (result.attempts = 0 ∨ ¬ Stops clock limit? deadline? result.attempts))) ∧
        ∀ attempts next,
          Yields clock challenge limit? deadline? start (.ok (.limitReached attempts next)) →
            Stops clock limit? deadline? attempts ∧ (next < indexLimit →
              ((challenge.space.cursor next).current? = none ↔
                TriedAll challenge start attempts)) := by
  refine ⟨fun n ↦ yields_exhausted_iff, fun result ↦ exists_eq_exhausted_iff, ?_⟩
  intro attempts next hstopped
  obtain ⟨-, hstops, -, -⟩ := failed_of_limitReached hstopped
  exact ⟨hstops, current?_next_eq_none_iff hstopped⟩

/-- In `apart` the search without limits has tried everything after one attempt. From the call that
is skipped on, the search in `oneStep` is stopped after one attempt and has not. -/
theorem exhausted_iff_triedAll_apart :
    (Yields (fun _ ↦ (0 : Nat)) apart none none 0 (.ok (.exhausted 1)) ∧ TriedAll apart 0 1) ∧
      Yields (fun _ ↦ (0 : Nat)) oneStep (some 1) none 8 (.ok (.limitReached 1 9)) ∧
        ¬ TriedAll oneStep 8 1 := by
  have hyields : Yields (fun _ ↦ (0 : Nat)) apart none none 0 (.ok (.exhausted 1)) :=
    (yields_iff_search {}).2 ⟨nofun, 2, search_apart _⟩
  obtain ⟨-, hexhausted, -⟩ := exhausted_iff_triedAll apart (fun _ ↦ (0 : Nat)) none none 0
  obtain ⟨-, -, hstopped⟩ := exhausted_iff_triedAll oneStep (fun _ ↦ (0 : Nat)) (some 1) none 8
  refine ⟨⟨hyields, ((hexhausted _ hyields).1 ⟨1, rfl⟩).1⟩, yields_oneStep_of_limit, ?_⟩
  intro htried
  have hnone := ((hstopped 1 9 yields_oneStep_of_limit).2 (by decide)).2 htried
  rw [current?_oneStep (d := 8) rfl] at hnone
  contradiction

/-- The only program of `apart` is tried and fails, and the search is stopped then. It does not say
that it has tried everything, but names an index as the next at which there is no program. -/
theorem limitReached_of_triedAll_apart :
    search (fun _ ↦ (0 : Id Nat)) 2 apart { attempts? := some 1 } = .ok (.limitReached 1 1) ∧
      TriedAll apart 0 1 ∧ (apart.space.cursor 1).current? = none := by
  have hindex : (apart.space.cursor 0).advance.index = 1 := congrArg Cursor.index advance_apart
  have hlast : ((apart.space.cursor 0).advanceBy 1).current? = none := by
    show (apart.space.cursor 0).advance.current? = none
    rw [advance_apart, current?_apart_one]
  refine ⟨?_, ⟨⟨2, failed_succ_iff.2 ⟨⟨_, current?_apart, trial_apart⟩, failed_zero 2 _ _⟩⟩, hlast⟩,
    current?_apart_one⟩
  rw [← hindex]
  exact searchFrom_of_stops current?_apart trial_apart (stops_of_limit_le le_rfl)

end TileRobot.Search
