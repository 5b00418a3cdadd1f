import TileRobot.Proofs.Machine.Divergence
import TileRobot.Proofs.Search.Account
import TileRobot.Proofs.Space.Restart

/-!
# The first solution

A search goes by the cursor and counts its attempts, and the programs have indices. The two belong
together: after so many failed attempts the cursor is so many indices on
(`Failed.advanceBy_cursor`), whatever the limits are. So the result of a search can be read by
anyone who knows where it started (`forall_failsAt_of_yields`): the programs at the indices that
were passed fail, and the one that was found stands at the next index.
-/

namespace TileRobot.Search

open Space (Cursor)

variable {fuel i j m : Nat} {s : Scene} {p : Program} {space : Space} {challenge : Challenge}
  {clock : Nat → Id Nat} {limit? deadline? : Option Nat}

/-! ### Results -/

/-- A search from an index on comes to a result when some number of steps suffices for each of its
runs. The deadline is a reading of the clock, and the search is late after it. -/
def Yields (clock : Nat → Id Nat) (challenge : Challenge) (limit? deadline? : Option Nat)
    (start : Nat) (result : Except Obstacle Result) : Prop :=
  result ≠ .error .unfinished ∧ ∃ (hstart : start < indexLimit) (fuel : Nat),
    searchFrom clock fuel challenge.scene limit? deadline?
      ⟨challenge.space.cursor start, Space.valid_cursor hstart⟩ 0 = result

/-- Limits in seconds set the deadline so much later than the first reading of the clock. -/
theorem yields_iff_search (limits : Limits) {result : Except Obstacle Result} :
    Yields clock challenge limits.attempts?
        (limits.seconds?.map ((clock 0).run + nanosecondsPerSecond * ·)) limits.start result ↔
      result ≠ .error .unfinished ∧ ∃ fuel, search clock fuel challenge limits = result := by
  refine and_congr_right fun _ ↦ ⟨?_, ?_⟩
  · rintro ⟨_, fuel, hsearch⟩
    exact ⟨fuel, hsearch⟩
  · rintro ⟨fuel, hsearch⟩
    exact ⟨limits.start_lt, fuel, hsearch⟩

/-! ### Attempts and indices -/

/-- Each failed attempt has moved the cursor on by one index. -/
theorem Failed.index_advanceBy {c : Cursor} (hfailed : Failed fuel s c m) :
    (c.advanceBy m).index = c.index + m := by
  induction m generalizing c with
  | zero => rfl
  | succ m ih =>
    obtain ⟨⟨p, hp, -⟩, hrest⟩ := failed_succ_iff.1 hfailed
    obtain ⟨ws, hws, -⟩ := Option.map_eq_some_iff.1 hp
    have hindex : c.advance.index = c.index + 1 := by simp only [Cursor.advance, hws]
    rw [Cursor.advanceBy, ih hrest, hindex, Nat.add_right_comm, Nat.add_assoc]

/-- **The cursor of a search stands at the index that the attempts tell.** -/
theorem Failed.advanceBy_cursor (hfailed : Failed fuel s (space.cursor i) m)
    (hlimit : i + m < indexLimit) (hj : j ≤ m) :
    (space.cursor i).advanceBy j = space.cursor (i + j) := by
  rcases j with - | j
  · rfl
  · -- there is a program at the index before, so the space goes on at least to this one
    obtain ⟨p, hp, -⟩ := hfailed j hj
    have hin : ¬ space.size ≤ i + j := fun hle ↦ by
      rw [(Space.current?_advanceBy_cursor_eq_none_iff (by omega)).2 hle] at hp
      contradiction
    exact Space.advanceBy_cursor (by omega) (by omega)

/-- A trial that gives an answer is a run that comes to an end. -/
theorem exists_endsWith_of_trial {b : Bool} (ht : trial fuel s p = .ok b) :
    ∃ outcome, Machine.EndsWith s p (.finished outcome) ∧ b = decide (outcome = .solved) := by
  obtain ⟨h, outcome, hrun, hending, hb⟩ := trial_eq_ok_iff.1 ht
  exact ⟨outcome, ⟨fuel, h, hrun, hending⟩, hb⟩

theorem endsWith_solved_of_trial (ht : trial fuel s p = .ok true) :
    Machine.EndsWith s p (.finished .solved) := by
  obtain ⟨outcome, hends, hsolved⟩ := exists_endsWith_of_trial ht
  rwa [← of_decide_eq_true hsolved.symm]

/-- There is a program at the index, and its run comes to an end with another outcome than a
solution. -/
def FailsAt (challenge : Challenge) (i : Nat) : Prop :=
  ∃ p outcome, (challenge.space.cursor i).current? = some p ∧
    Machine.EndsWith challenge.scene p (.finished outcome) ∧ outcome ≠ .solved

theorem Failed.failsAt (hfailed : Failed fuel challenge.scene (challenge.space.cursor i) m)
    (hlimit : i + m < indexLimit) (hij : i ≤ j) (hj : j < i + m) : FailsAt challenge j := by
  obtain ⟨k, rfl⟩ := Nat.exists_eq_add_of_le hij
  obtain ⟨p, hp, ht⟩ := hfailed k (by omega)
  rw [hfailed.advanceBy_cursor hlimit (by omega)] at hp
  obtain ⟨outcome, hends, hfalse⟩ := exists_endsWith_of_trial ht
  exact ⟨p, outcome, hp, hends, of_decide_eq_false hfalse.symm⟩

/-! ### What was found, and where -/

/-- **A search finds the first solution and tells its index.** Whatever the limits and the clock, a
search has passed as many indices as it has made attempts, and at each there is a program whose run
ends otherwise than solved. A program that was found stands at the index after these and solves the
scene; a search that has tried everything is past the last program; and a search that was stopped
names the index after these as the next. -/
theorem forall_failsAt_of_yields {start : Nat} {result : Result}
    (hyields : Yields clock challenge limit? deadline? start (.ok result))
    (hlimit : start + result.attempts < indexLimit) :
    (∀ i, start ≤ i → i < start + result.attempts → FailsAt challenge i) ∧
      match result with
      | .found p attempts => (challenge.space.cursor (start + attempts)).current? = some p ∧
          Machine.EndsWith challenge.scene p (.finished .solved)
      | .exhausted attempts => (challenge.space.cursor (start + attempts)).current? = none
      | .limitReached attempts next => next = start + attempts := by
  obtain ⟨-, hstart, fuel, hsearch⟩ := hyields
  have hdescribes := describes_searchFrom clock fuel challenge.scene limit? deadline?
    ⟨challenge.space.cursor start, Space.valid_cursor hstart⟩ 0
  rw [hsearch] at hdescribes
  rcases result with ⟨p, attempts⟩ | attempts | ⟨attempts, next⟩
  case found =>
    obtain ⟨m, hattempts, hfailed, hp, ht⟩ := hdescribes
    obtain rfl : attempts = m := hattempts.trans (Nat.zero_add m)
    rw [hfailed.advanceBy_cursor hlimit le_rfl] at hp
    exact ⟨fun _ ↦ hfailed.failsAt hlimit, hp, endsWith_solved_of_trial ht⟩
  case exhausted =>
    obtain ⟨m, hattempts, hfailed, hnone⟩ := hdescribes
    obtain rfl : attempts = m := hattempts.trans (Nat.zero_add m)
    rw [hfailed.advanceBy_cursor hlimit le_rfl] at hnone
    exact ⟨fun _ ↦ hfailed.failsAt hlimit, hnone⟩
  case limitReached =>
    obtain ⟨m, -, hattempts, hfailed, hnext⟩ := hdescribes
    obtain rfl : attempts = m := hattempts.trans (Nat.zero_add m)
    exact ⟨fun _ ↦ hfailed.failsAt hlimit, hnext.trans hfailed.index_advanceBy⟩

/-- The two blue tiles with the robot on the western one and the goal on the eastern one, to be
solved with a routine of at most one slot. -/
def oneStep : Challenge := ⟨Machine.twoTiles, [1], []⟩

/-- The programs of one slot have the indices after that of the empty one. -/
theorem current?_oneStep {d : Nat} {i : Instruction} (hd : oneStep.repertoire[d]? = some i) :
    (oneStep.space.cursor (d + 1)).current? = some ⟨[[some i]]⟩ := by
  obtain ⟨hlt, -⟩ := List.getElem?_eq_some_iff.1 hd
  have hwithin : Phrase.Within oneStep.space.radix oneStep.space.bounds [[d]] :=
    ⟨⟨fun e he ↦ List.mem_singleton.1 he ▸ hlt, le_rfl⟩, trivial⟩
  have hrank : Phrase.rank oneStep.space.radix oneStep.space.bounds [[d]] = d + 1 := by
    simp [Phrase.rank, Word.rank, oneStep, Challenge.space]
  have hsize : oneStep.space.size < indexLimit := by decide
  have hp := Space.current?_cursor_rank hwithin ((Phrase.rank_lt_count hwithin).trans hsize)
  rw [hrank] at hp
  refine hp.trans (congrArg some ?_)
  show (⟨[[oneStep.repertoire[d]?]]⟩ : Program) = _
  rw [hd]

theorem trial_oneStep_of_skipped :
    trial 2 oneStep.scene ⟨[[some ⟨.call 0, some .green⟩]]⟩ = .ok false := by
  refine trial_eq_ok_iff.2 ⟨⟨.finished .exhausted, oneStep.scene⟩, .exhausted, ?_, rfl, rfl⟩
  rw [Machine.run, Machine.runFrom_of_proceed (Machine.Evidence.not_repeats_empty _) rfl]
  exact Machine.runFrom_of_ending (Machine.Evidence.not_repeats_nil _ _) rfl

theorem trial_oneStep_of_taken :
    trial 2 oneStep.scene ⟨[[some ⟨.forward, some .blue⟩]]⟩ = .ok true :=
  trial_eq_ok_iff.2 ⟨⟨.finished .solved, oneStep.scene.enter ⟨0, 1⟩⟩, .solved,
    Machine.runFrom_of_ending (Machine.Evidence.not_repeats_empty _) rfl, rfl, rfl⟩

/-- From the call that is skipped on, the search finds the step to the east in the second
attempt. -/
theorem search_oneStep (clock : Nat → Id Nat) : search clock 2 oneStep { start := 8 } =
    .ok (.found ⟨[[some ⟨.forward, some .blue⟩]]⟩ 1) := by
  have hskipped := current?_oneStep (d := 7) rfl
  have htaken := current?_oneStep (d := 8) rfl
  rw [← Space.advance_cursor (by decide) (by decide)] at htaken
  exact (searchFrom_of_failed hskipped trial_oneStep_of_skipped).trans
    (searchFrom_of_solved htaken trial_oneStep_of_taken)

/-- The program that is found from index eight on has index nine, and the one before it fails. -/
theorem failsAt_oneStep :
    Yields (fun _ ↦ (0 : Nat)) oneStep none none 8
        (.ok (.found ⟨[[some ⟨.forward, some .blue⟩]]⟩ 1)) ∧
      (∀ i, 8 ≤ i → i < 9 → FailsAt oneStep i) ∧
        (oneStep.space.cursor 9).current? = some ⟨[[some ⟨.forward, some .blue⟩]]⟩ ∧
          Machine.EndsWith oneStep.scene ⟨[[some ⟨.forward, some .blue⟩]]⟩ (.finished .solved) := by
  have hyields : Yields (fun _ ↦ (0 : Nat)) oneStep none none 8
      (.ok (.found ⟨[[some ⟨.forward, some .blue⟩]]⟩ 1)) :=
    (yields_iff_search { start := 8 }).2 ⟨nofun, 2, search_oneStep _⟩
  exact ⟨hyields, forall_failsAt_of_yields hyields (by decide)⟩

end TileRobot.Search
