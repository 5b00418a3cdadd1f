import TileRobot.Proofs.Search.FirstSolution

/-!
# Going on with a search

A search that was stopped by a limit can be gone on with at the index that it names. Nothing is lost
by that and nothing is done twice: the search without limits comes to the same result from the one
index as from the other, with as many attempts more as the stopped search had made
(`Yields.iff_of_limitReached`). So a chain of searches, each from the index at which the one before
stopped, comes to what one search without limits comes to (`Chain.yields_iff`).

The proof is about the search from a cursor on. Without limits it passes over programs that fail
(`PassesOver.searchFrom_eq`), the attempts made before are only added to the result
(`searchFrom_add`), and limits matter to it only by stopping it (`searchFrom_of_not_stopped`).
-/

namespace TileRobot.Search

open Space (Cursor)

variable {fuel k m n : Nat} {s : Scene} {p : Program} {challenge : Challenge}
  {clock : Nat → Id Nat} {limit? deadline? : Option Nat} {c : { c : Cursor // c.Valid }}

/-! ### More steps -/

/-- A trial that has come to its end ends the same way when more steps are allowed. -/
theorem trial_of_le (hmn : m ≤ n) (hm : trial m s p ≠ .error .unfinished) :
    trial n s p = trial m s p := by
  rcases hrun : Machine.run m s p with - | h
  · exact absurd (by simp only [trial, hrun]) hm
  · have hrun' : Machine.run n s p = some h := Machine.runFrom_of_le hmn hrun
    simp only [trial, hrun, hrun']

theorem Failed.of_le {c : Cursor} (hfailed : Failed m s c k) (hmn : m ≤ n) : Failed n s c k := by
  intro j hj
  obtain ⟨p, hp, ht⟩ := hfailed j hj
  refine ⟨p, hp, (trial_of_le hmn ?_).trans ht⟩
  rw [ht]
  exact nofun

/-- **A result stays the same when more steps are allowed.** -/
theorem searchFrom_of_le (hmn : m ≤ n)
    (hm : searchFrom clock m s limit? deadline? c k ≠ .error .unfinished) :
    searchFrom clock n s limit? deadline? c k = searchFrom clock m s limit? deadline? c k := by
  induction c using Cursor.induction_advance generalizing k with
  | step c ih =>
    rcases hp : c.1.current? with - | p
    · rw [searchFrom_of_none hp, searchFrom_of_none hp]
    · have ht : trial m s p ≠ .error .unfinished := fun hunfinished ↦
        hm (searchFrom_of_error hp hunfinished)
      have hle := trial_of_le hmn ht
      rcases hm' : trial m s p with obstacle | - | -
      · rw [searchFrom_of_error hp hm', searchFrom_of_error hp (hle.trans hm')]
      · rw [searchFrom_of_failed hp hm'] at hm
        rw [searchFrom_of_failed hp hm', searchFrom_of_failed hp (hle.trans hm')]
        split
        · rfl
        · rename_i hgo
          rw [if_neg hgo] at hm
          exact ih (hp ▸ rfl) hm
      · rw [searchFrom_of_solved hp hm', searchFrom_of_solved hp (hle.trans hm')]

/-! ### Searches without limits -/

/-- The result of a search with further attempts made before it. -/
def Result.after (n : Nat) : Result → Result
  | found p attempts => found p (n + attempts)
  | exhausted attempts => exhausted (n + attempts)
  | limitReached attempts next => limitReached (n + attempts) next

/-- **The attempts made before are added to the result**, and without limits the clock is not
asked. -/
theorem searchFrom_add (clock clock' : Nat → Id Nat) (fuel : Nat) (s : Scene)
    (c : { c : Cursor // c.Valid }) (n k : Nat) :
    searchFrom clock fuel s none none c (n + k) =
      (searchFrom clock' fuel s none none c k : Except Obstacle Result).map (Result.after n) := by
  induction c using Cursor.induction_advance generalizing k with
  | step c ih =>
    rcases hp : c.1.current? with - | p
    · rw [searchFrom_of_none hp, searchFrom_of_none hp]
      rfl
    · rcases ht : trial fuel s p with obstacle | - | -
      · rw [searchFrom_of_error hp ht, searchFrom_of_error hp ht]
        rfl
      · rw [searchFrom_of_goesOn hp ht (not_stops_none clock _),
          searchFrom_of_goesOn hp ht (not_stops_none clock' _), Nat.add_assoc,
          ih (hp ▸ rfl)]
      · rw [searchFrom_of_solved hp ht, searchFrom_of_solved hp ht]
        rfl

/-- **Limits matter only by stopping a search.** -/
theorem searchFrom_of_not_stopped (clock' : Nat → Id Nat) {result : Except Obstacle Result}
    (hsearch : searchFrom clock fuel s limit? deadline? c k = result)
    (hresult : ∀ attempts next, result ≠ .ok (.limitReached attempts next)) :
    searchFrom clock' fuel s none none c k = result := by
  obtain ⟨m, ⟨hfailed, -⟩, hends⟩ := searchFrom_eq_iff.1 hsearch
  refine searchFrom_eq_iff.2 ⟨m, hfailed.passesOver k, ?_⟩
  rcases result with obstacle | ⟨p, a⟩ | a | ⟨a, next⟩
  case ok.limitReached => exact absurd rfl (hresult a next)
  all_goals exact hends

/-- A search without limits passes over what a stopped search has tried. -/
theorem searchFrom_of_limitReached {start attempts next : Nat} (clock₁ clock₂ : Nat → Id Nat)
    (hstart : start < indexLimit) (hnext : next < indexLimit) (hmn : m ≤ n)
    (hsearch : searchFrom clock m challenge.scene limit? deadline?
      ⟨challenge.space.cursor start, Space.valid_cursor hstart⟩ 0
        = .ok (.limitReached attempts next)) :
    searchFrom clock₁ n challenge.scene none none
        ⟨challenge.space.cursor start, Space.valid_cursor hstart⟩ 0 =
      (searchFrom clock₂ n challenge.scene none none
        ⟨challenge.space.cursor next, Space.valid_cursor hnext⟩ 0
          : Except Obstacle Result).map (Result.after attempts) := by
  have hdescribes := describes_searchFrom clock m challenge.scene limit? deadline?
    ⟨challenge.space.cursor start, Space.valid_cursor hstart⟩ 0
  rw [hsearch] at hdescribes
  obtain ⟨k, -, hattempts, hfailed, hindex⟩ := hdescribes
  obtain rfl : attempts = k := hattempts.trans (Nat.zero_add k)
  obtain rfl : next = start + attempts := hindex.trans hfailed.index_advanceBy
  have hcursor : (⟨(challenge.space.cursor start).advanceBy attempts,
      (Space.valid_cursor hstart).advanceBy attempts⟩ : { c : Cursor // c.Valid }) =
        ⟨challenge.space.cursor (start + attempts), Space.valid_cursor hnext⟩ :=
    Subtype.ext (hfailed.advanceBy_cursor hnext le_rfl)
  rw [((hfailed.of_le hmn).passesOver 0).searchFrom_eq, hcursor, Nat.add_comm 0,
    searchFrom_add clock₁ clock₂]

/-! ### Results -/

variable {start attempts next : Nat} {result result' : Except Obstacle Result}

/-- A search comes to one result. -/
theorem Yields.unique (hresult : Yields clock challenge limit? deadline? start result)
    (hresult' : Yields clock challenge limit? deadline? start result') : result = result' := by
  obtain ⟨hne, hstart, m, hm⟩ := hresult
  obtain ⟨hne', _, n, hn⟩ := hresult'
  have hm' := searchFrom_of_le (Nat.le_max_left m n) (hm.trans_ne hne)
  have hn' := searchFrom_of_le (Nat.le_max_right m n) (hn.trans_ne hne')
  exact hm.symm.trans (hm'.symm.trans (hn'.trans hn))

/-- A search that was not stopped comes to the result of the search without limits. -/
theorem Yields.of_not_stopped (clock' : Nat → Id Nat)
    (hresult : Yields clock challenge limit? deadline? start result)
    (hended : ∀ attempts next, result ≠ .ok (.limitReached attempts next)) :
    Yields clock' challenge none none start result := by
  obtain ⟨hne, hstart, fuel, hsearch⟩ := hresult
  exact ⟨hne, hstart, fuel, searchFrom_of_not_stopped clock' hsearch hended⟩

/-- **Stopping and going on loses nothing.** -/
theorem Yields.iff_of_limitReached (clock₁ clock₂ : Nat → Id Nat)
    (hstopped : Yields clock challenge limit? deadline? start (.ok (.limitReached attempts next)))
    (hnext : next < indexLimit) :
    Yields clock₁ challenge none none start result ↔
      ∃ rest, Yields clock₂ challenge none none next rest ∧
        result = rest.map (Result.after attempts) := by
  obtain ⟨-, hstart, m, hsearch⟩ := hstopped
  -- both searches are compared with the same number of steps, at least that of the stopped one
  have hresume := fun n ↦
    searchFrom_of_limitReached clock₁ clock₂ hstart hnext (Nat.le_max_left m n) hsearch
  constructor
  · rintro ⟨hne, _, n, hn⟩
    have hn' := searchFrom_of_le (Nat.le_max_right m n) (hn.trans_ne hne)
    have hresult := hn.symm.trans (hn'.symm.trans (hresume n))
    refine ⟨_, ⟨fun hunfinished ↦ hne ?_, hnext, max m n, rfl⟩, hresult⟩
    rw [hresult, hunfinished]
    rfl
  · rintro ⟨rest, ⟨hne, _, n, hn⟩, rfl⟩
    have hn' := searchFrom_of_le (Nat.le_max_right m n) (hn.trans_ne hne)
    refine ⟨?_, hstart, max m n, (hresume n).trans (by rw [hn', hn])⟩
    rcases rest with obstacle | r
    · exact hne
    · exact nofun

/-! ### Chains of searches -/

/-- A chain of searches from an index on comes to a result, the attempts of all its searches being
counted. Each search has limits and a clock of its own. -/
inductive Chain (challenge : Challenge) : Nat → Except Obstacle Result → Prop where
  /-- The last search is not stopped. -/
  | last {clock : Nat → Id Nat} {limit? deadline? : Option Nat} {start : Nat}
    {result : Except Obstacle Result}
    (yields : Yields clock challenge limit? deadline? start result)
    (ended : ∀ attempts next, result ≠ .ok (.limitReached attempts next)) :
    Chain challenge start result
  /-- A search is stopped, and the others go on at the index that it names. -/
  | stopped {clock : Nat → Id Nat} {limit? deadline? : Option Nat} {start attempts next : Nat}
    {result : Except Obstacle Result}
    (yields : Yields clock challenge limit? deadline? start (.ok (.limitReached attempts next)))
    (rest : Chain challenge next result) :
    Chain challenge start (result.map (Result.after attempts))

/-- A chain starts at an index. -/
theorem Chain.start_lt (hchain : Chain challenge start result) : start < indexLimit := by
  rcases hchain with ⟨⟨-, hstart, -⟩, -⟩ | ⟨⟨-, hstart, -⟩, -⟩ <;> exact hstart

/-- **A chain of searches comes to what one search without limits comes to.** -/
theorem Chain.yields_iff (hchain : Chain challenge start result) (clock : Nat → Id Nat) :
    Yields clock challenge none none start result' ↔ result' = result := by
  induction hchain generalizing result' with
  | last hyields hended =>
    have hunlimited := hyields.of_not_stopped clock hended
    exact ⟨fun hresult' ↦ hresult'.unique hunlimited, fun heq ↦ heq ▸ hunlimited⟩
  | stopped hyields hrest ih =>
    rw [hyields.iff_of_limitReached clock clock hrest.start_lt]
    simp only [ih, exists_eq_left]

/-- **A search can be stopped and gone on with.** If a search is stopped under any limits, the
search without limits comes to the same result from its start as from the index it names next: to
the same kind of result, with the same program or the same fault, and with as many attempts more as
were made before the stop; and to none from the one if to none from the other. So every chain of
searches that comes to an end comes to the result of the one search without limits from its start,
the attempts of its searches added up. -/
theorem yields_iff_resumed (challenge : Challenge) :
    (∀ {clock : Nat → Id Nat} {limit? deadline? : Option Nat} {start attempts next : Nat},
      Yields clock challenge limit? deadline? start (.ok (.limitReached attempts next)) →
        next < indexLimit → ∀ clock₁ clock₂ result,
          Yields clock₁ challenge none none start result ↔
            ∃ rest, Yields clock₂ challenge none none next rest ∧
              result = rest.map (Result.after attempts)) ∧
      ∀ {start : Nat} {result : Except Obstacle Result}, Chain challenge start result →
        ∀ clock result', Yields clock challenge none none start result' ↔ result' = result :=
  ⟨fun hstopped hnext clock₁ clock₂ _ ↦ hstopped.iff_of_limitReached clock₁ clock₂ hnext,
    fun hchain clock _ ↦ hchain.yields_iff clock⟩

/-- From the call that is skipped on, a search that may make one attempt is stopped after it. -/
theorem yields_oneStep_of_limit :
    Yields (fun _ ↦ (0 : Nat)) oneStep (some 1) none 8 (.ok (.limitReached 1 9)) :=
  ⟨nofun, by decide, 2,
    searchFrom_of_failed (current?_oneStep (d := 7) rfl) trial_oneStep_of_skipped⟩

/-- A search in two parts: from the call that is skipped on, the first is stopped after one attempt,
and the second finds the step to the east at once. The search in one part finds it in the second
attempt. -/
theorem yields_iff_resumed_oneStep :
    Yields (fun _ ↦ (0 : Nat)) oneStep (some 1) none 8 (.ok (.limitReached 1 9)) ∧
      (∀ result, Yields (fun _ ↦ (0 : Nat)) oneStep none none 8 result ↔
        ∃ rest, Yields (fun _ ↦ (0 : Nat)) oneStep none none 9 rest ∧
          result = rest.map (Result.after 1)) ∧
      Chain oneStep 8 (.ok (.found ⟨[[some ⟨.forward, some .blue⟩]]⟩ 1)) ∧
        ∀ result, Yields (fun _ ↦ (0 : Nat)) oneStep none none 8 result ↔
          result = .ok (.found ⟨[[some ⟨.forward, some .blue⟩]]⟩ 1) := by
  have htaken := current?_oneStep (d := 8) rfl
  have hstopped := yields_oneStep_of_limit
  have hfound : Yields (fun _ ↦ (0 : Nat)) oneStep none none 9
      (.ok (.found ⟨[[some ⟨.forward, some .blue⟩]]⟩ 0)) :=
    ⟨nofun, by decide, 2, searchFrom_of_solved htaken trial_oneStep_of_taken⟩
  have hchain : Chain oneStep 8 (.ok (.found ⟨[[some ⟨.forward, some .blue⟩]]⟩ 1)) :=
    .stopped hstopped (.last hfound nofun)
  exact ⟨hstopped, fun result ↦ (yields_iff_resumed oneStep).1 hstopped (by decide) _ _ result,
    hchain, (yields_iff_resumed oneStep).2 hchain _⟩

end TileRobot.Search
