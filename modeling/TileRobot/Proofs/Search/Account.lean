import TileRobot.Proofs.Space.Restart
import TileRobot.Search.Basic

/-!
# What the result of a search tells

A search goes through the programs from its cursor on. It passes over those that fail as long as the
limits let it (`PassesOver`), and at the next place it ends, for one of four reasons (`EndsAt`).
These two tell the result and are told by it (`searchFrom_eq_iff`), so what is proved about searches
need not go into their recursion again.

The clock and the limits matter only to whether a search is stopped early (`Stops`). What a result
says about the programs is the same for all of them (`describes_searchFrom`): all programs before
the place where the search ended have failed, and their number is the number of attempts.
-/

namespace TileRobot.Search

open Space (Cursor)

variable {fuel k m : Nat} {s : Scene} {p : Program} {clock : Nat → Id Nat}
  {limit? deadline? : Option Nat}

/-! ### Trials -/

/-- A trial gives an answer when the run comes to an end without a fault. -/
theorem trial_eq_ok_iff {b : Bool} : trial fuel s p = .ok b ↔
    ∃ h outcome, Machine.run fuel s p = some h ∧ h.ending = .finished outcome ∧
      b = decide (outcome = .solved) := by
  simp only [trial]
  rcases hrun : Machine.run fuel s p with - | ⟨outcome | fault, t⟩
  · simp
  · simp only [Except.ok.injEq, Option.some.injEq]
    constructor
    · rintro rfl
      exact ⟨_, outcome, rfl, rfl, rfl⟩
    · rintro ⟨_, outcome', rfl, hending, rfl⟩
      obtain rfl : outcome = outcome' := Machine.Ending.finished.inj hending
      rfl
  · simp only [reduceCtorEq, false_iff, Option.some.injEq]
    rintro ⟨_, outcome, rfl, hending, -⟩
    contradiction

/-! ### One program after the other -/

section SearchFrom

variable {c : { c : Cursor // c.Valid }} {attempts : Nat}

theorem searchFrom_of_none (hc : c.1.current? = none) :
    searchFrom clock fuel s limit? deadline? c attempts = .ok (.exhausted attempts) := by
  rw [searchFrom]
  split
  · rfl
  · rename_i hp
    rw [hc] at hp
    contradiction

theorem searchFrom_of_error {obstacle : Obstacle} (hp : c.1.current? = some p)
    (ht : trial fuel s p = .error obstacle) :
    searchFrom clock fuel s limit? deadline? c attempts = .error obstacle := by
  rw [searchFrom]
  split
  · rename_i hc
    rw [hc] at hp
    contradiction
  · rename_i q hq
    obtain rfl : p = q := Option.some.inj (hp.symm.trans hq)
    simp only [ht]
    rfl

theorem searchFrom_of_solved (hp : c.1.current? = some p) (ht : trial fuel s p = .ok true) :
    searchFrom clock fuel s limit? deadline? c attempts = .ok (.found p attempts) := by
  rw [searchFrom]
  split
  · rename_i hc
    rw [hc] at hp
    contradiction
  · rename_i q hq
    obtain rfl : p = q := Option.some.inj (hp.symm.trans hq)
    simp only [ht]
    rfl

/-- After a failure the limits are looked at, and within them the search goes on. -/
theorem searchFrom_of_failed (hp : c.1.current? = some p) (ht : trial fuel s p = .ok false) :
    searchFrom clock fuel s limit? deadline? c attempts =
      if limit?.any (· ≤ attempts + 1) || isLate clock deadline? (attempts + 1) then
        .ok (.limitReached (attempts + 1) c.1.advance.index)
      else searchFrom clock fuel s limit? deadline? ⟨c.1.advance, c.2.advance⟩ (attempts + 1) := by
  rw [searchFrom]
  split
  · rename_i hc
    rw [hc] at hp
    contradiction
  · rename_i q hq
    obtain rfl : p = q := Option.some.inj (hp.symm.trans hq)
    simp only [ht]
    rcases limit?.any (· ≤ attempts + 1) with - | - <;> rfl

/-- The limits stop a search after so many failed attempts. The clock is read only at every
`checkInterval`-th of them. -/
def Stops (clock : Nat → Id Nat) (limit? deadline? : Option Nat) (attempts : Nat) : Prop :=
  (∃ limit ∈ limit?, limit ≤ attempts) ∨ attempts % checkInterval = 0 ∧
    ∃ deadline ∈ deadline?, deadline < (clock (attempts / checkInterval)).run

theorem stops_iff : Stops clock limit? deadline? attempts ↔
    (limit?.any (· ≤ attempts) || isLate clock deadline? attempts) = true := by
  rw [Bool.or_eq_true, Option.any_eq_true]
  refine or_congr (by simp) ?_
  rcases deadline? with - | deadline
  · simp [isLate]
  · by_cases hread : attempts % checkInterval = 0
    · simp only [isLate, hread, Option.mem_some_iff, exists_eq_left', true_and, if_true]
      show _ ↔ decide (deadline < (clock (attempts / checkInterval)).run) = true
      rw [decide_eq_true_iff]
    · simp [isLate, hread]

theorem searchFrom_of_stops (hp : c.1.current? = some p) (ht : trial fuel s p = .ok false)
    (hstops : Stops clock limit? deadline? (attempts + 1)) :
    searchFrom clock fuel s limit? deadline? c attempts =
      .ok (.limitReached (attempts + 1) c.1.advance.index) :=
  (searchFrom_of_failed hp ht).trans (if_pos (stops_iff.1 hstops))

theorem searchFrom_of_goesOn (hp : c.1.current? = some p) (ht : trial fuel s p = .ok false)
    (hgo : ¬ Stops clock limit? deadline? (attempts + 1)) :
    searchFrom clock fuel s limit? deadline? c attempts =
      searchFrom clock fuel s limit? deadline? ⟨c.1.advance, c.2.advance⟩ (attempts + 1) :=
  (searchFrom_of_failed hp ht).trans (if_neg fun hstops ↦ hgo (stops_iff.2 hstops))

end SearchFrom

/-! ### Passing over programs -/

/-- There are `m` programs from the cursor on, and the trial of each fails. -/
def Failed (fuel : Nat) (s : Scene) (c : Cursor) (m : Nat) : Prop :=
  ∀ j < m, ∃ p, (c.advanceBy j).current? = some p ∧ trial fuel s p = .ok false

theorem failed_zero (fuel : Nat) (s : Scene) (c : Cursor) : Failed fuel s c 0 :=
  fun j hj ↦ absurd hj (Nat.not_lt_zero j)

theorem failed_succ_iff {c : Cursor} : Failed fuel s c (m + 1) ↔
    (∃ p, c.current? = some p ∧ trial fuel s p = .ok false) ∧ Failed fuel s c.advance m := by
  constructor
  · exact fun hfailed ↦ ⟨hfailed 0 (Nat.succ_pos m), fun j hj ↦ hfailed (j + 1) (by omega)⟩
  · rintro ⟨hfirst, hrest⟩ j hj
    rcases j with - | j
    · exact hfirst
    · exact hrest j (Nat.lt_of_succ_lt_succ hj)

theorem Failed.concat {c : Cursor} (hfailed : Failed fuel s c m)
    (hlast : ∃ p, (c.advanceBy m).current? = some p ∧ trial fuel s p = .ok false) :
    Failed fuel s c (m + 1) := by
  intro j hj
  rcases Nat.lt_succ_iff_lt_or_eq.1 hj with hj | rfl
  · exact hfailed j hj
  · exact hlast

/-- A search passes over `m` programs, so many attempts having been made before: each of them fails
and the limits do not stop the search after it. -/
structure PassesOver (clock : Nat → Id Nat) (limit? deadline? : Option Nat) (fuel : Nat) (s : Scene)
    (c : Cursor) (attempts m : Nat) : Prop where
  /-- Each of the programs fails. -/
  failed : Failed fuel s c m
  /-- The search goes on after each. -/
  goesOn : ∀ j < m, ¬ Stops clock limit? deadline? (attempts + j + 1)

theorem passesOver_zero (c : Cursor) (k : Nat) :
    PassesOver clock limit? deadline? fuel s c k 0 :=
  ⟨failed_zero fuel s c, fun j hj ↦ absurd hj (Nat.not_lt_zero j)⟩

theorem passesOver_succ_iff {c : Cursor} : PassesOver clock limit? deadline? fuel s c k (m + 1) ↔
    (∃ p, c.current? = some p ∧ trial fuel s p = .ok false) ∧
      ¬ Stops clock limit? deadline? (k + 1) ∧
        PassesOver clock limit? deadline? fuel s c.advance (k + 1) m := by
  constructor
  · rintro ⟨hfailed, hgo⟩
    obtain ⟨hfirst, hrest⟩ := failed_succ_iff.1 hfailed
    refine ⟨hfirst, hgo 0 (Nat.succ_pos m), hrest, fun j hj ↦ ?_⟩
    have hgo' := hgo (j + 1) (by omega)
    rwa [← Nat.add_assoc, Nat.add_right_comm k j 1] at hgo'
  · rintro ⟨hfirst, hgo, hrest, hgoRest⟩
    refine ⟨failed_succ_iff.2 ⟨hfirst, hrest⟩, fun j hj ↦ ?_⟩
    rcases j with - | j
    · exact hgo
    · have hgo' := hgoRest j (Nat.lt_of_succ_lt_succ hj)
      rwa [Nat.add_right_comm k 1 j, Nat.add_assoc k j 1] at hgo'

theorem not_stops_none (clock : Nat → Id Nat) (k : Nat) : ¬ Stops clock none none k := by
  rintro (⟨_, hnone, -⟩ | ⟨-, _, hnone, -⟩) <;> contradiction

/-- Without limits a search passes over all programs that fail. -/
theorem Failed.passesOver {c : Cursor} (hfailed : Failed fuel s c m) (k : Nat) :
    PassesOver clock none none fuel s c k m :=
  ⟨hfailed, fun _ _ ↦ not_stops_none clock _⟩

/-! ### Where a search ends -/

/-- A search that has come to the cursor, so many attempts having been made before, ends there with
the given result: with the program at the cursor, past the last one, because of the limits after
that program, or because its trial gives no answer. -/
def EndsAt (clock : Nat → Id Nat) (limit? deadline? : Option Nat) (fuel : Nat) (s : Scene)
    (c : Cursor) (attempts : Nat) : Except Obstacle Result → Prop
  | .ok (.found p a) => a = attempts ∧ c.current? = some p ∧ trial fuel s p = .ok true
  | .ok (.exhausted a) => a = attempts ∧ c.current? = none
  | .ok (.limitReached a next) => a = attempts + 1 ∧ next = c.advance.index ∧
      (∃ p, c.current? = some p ∧ trial fuel s p = .ok false) ∧
        Stops clock limit? deadline? (attempts + 1)
  | .error obstacle => ∃ p, c.current? = some p ∧ trial fuel s p = .error obstacle

theorem EndsAt.searchFrom_eq {c : { c : Cursor // c.Valid }} {result : Except Obstacle Result}
    (hends : EndsAt clock limit? deadline? fuel s c.1 k result) :
    searchFrom clock fuel s limit? deadline? c k = result := by
  rcases result with obstacle | ⟨p, a⟩ | a | ⟨a, next⟩
  · obtain ⟨p, hp, ht⟩ := hends
    exact searchFrom_of_error hp ht
  · obtain ⟨rfl, hp, ht⟩ := hends
    exact searchFrom_of_solved hp ht
  · obtain ⟨rfl, hnone⟩ := hends
    exact searchFrom_of_none hnone
  · obtain ⟨rfl, rfl, ⟨p, hp, ht⟩, hstops⟩ := hends
    exact searchFrom_of_stops hp ht hstops

/-- **What a search passes over it has behind it.** -/
theorem PassesOver.searchFrom_eq {c : { c : Cursor // c.Valid }}
    (hpasses : PassesOver clock limit? deadline? fuel s c.1 k m) :
    searchFrom clock fuel s limit? deadline? c k =
      searchFrom clock fuel s limit? deadline? ⟨c.1.advanceBy m, c.2.advanceBy m⟩ (k + m) := by
  induction m generalizing c k with
  | zero => rfl
  | succ m ih =>
    obtain ⟨⟨p, hp, ht⟩, hgo, hrest⟩ := passesOver_succ_iff.1 hpasses
    rw [searchFrom_of_goesOn hp ht hgo, ih hrest, Nat.add_right_comm]
    rfl

/-- Each search passes over some programs and ends at the next place. -/
theorem exists_passesOver (clock : Nat → Id Nat) (fuel : Nat) (s : Scene)
    (limit? deadline? : Option Nat) (c : { c : Cursor // c.Valid }) (k : Nat) :
    ∃ m, PassesOver clock limit? deadline? fuel s c.1 k m ∧
      EndsAt clock limit? deadline? fuel s (c.1.advanceBy m) (k + m)
        (searchFrom clock fuel s limit? deadline? c k) := by
  induction c using Cursor.induction_advance generalizing k with
  | step c ih =>
    rcases hp : c.1.current? with - | p
    · refine ⟨0, passesOver_zero c.1 k, ?_⟩
      rw [searchFrom_of_none hp]
      exact ⟨rfl, hp⟩
    · rcases ht : trial fuel s p with obstacle | - | -
      · refine ⟨0, passesOver_zero c.1 k, ?_⟩
        rw [searchFrom_of_error hp ht]
        exact ⟨p, hp, ht⟩
      · by_cases hstops : Stops clock limit? deadline? (k + 1)
        · refine ⟨0, passesOver_zero c.1 k, ?_⟩
          rw [searchFrom_of_stops hp ht hstops]
          exact ⟨rfl, rfl, ⟨p, hp, ht⟩, hstops⟩
        · obtain ⟨m, hpasses, hends⟩ := ih (hp ▸ rfl) (k + 1)
          refine ⟨m + 1, passesOver_succ_iff.2 ⟨⟨p, hp, ht⟩, hstops, hpasses⟩, ?_⟩
          rw [searchFrom_of_goesOn hp ht hstops]
          exact Nat.add_right_comm k 1 m ▸ hends
      · refine ⟨0, passesOver_zero c.1 k, ?_⟩
        rw [searchFrom_of_solved hp ht]
        exact ⟨rfl, hp, ht⟩

/-- **A search is told by what it passes over and where it ends.** -/
theorem searchFrom_eq_iff {c : { c : Cursor // c.Valid }} {result : Except Obstacle Result} :
    searchFrom clock fuel s limit? deadline? c k = result ↔
      ∃ m, PassesOver clock limit? deadline? fuel s c.1 k m ∧
        EndsAt clock limit? deadline? fuel s (c.1.advanceBy m) (k + m) result := by
  constructor
  · rintro rfl
    exact exists_passesOver clock fuel s limit? deadline? c k
  · rintro ⟨m, hpasses, hends⟩
    exact hpasses.searchFrom_eq.trans hends.searchFrom_eq

/-! ### What is the same for all limits -/

/-- What it means for the programs from the cursor on that a search comes to the given result, so
many attempts having been made before. -/
def Describes (fuel : Nat) (s : Scene) (c : Cursor) (attempts : Nat) :
    Except Obstacle Result → Prop
  | .ok (.found p a) => ∃ m, a = attempts + m ∧ Failed fuel s c m ∧
      (c.advanceBy m).current? = some p ∧ trial fuel s p = .ok true
  | .ok (.exhausted a) => ∃ m, a = attempts + m ∧ Failed fuel s c m ∧
      (c.advanceBy m).current? = none
  | .ok (.limitReached a next) => ∃ m, 0 < m ∧ a = attempts + m ∧ Failed fuel s c m ∧
      next = (c.advanceBy m).index
  | .error obstacle => ∃ m p, Failed fuel s c m ∧ (c.advanceBy m).current? = some p ∧
      trial fuel s p = .error obstacle

/-- **The result of a search tells how far it came and what it found there.** -/
theorem describes_searchFrom (clock : Nat → Id Nat) (fuel : Nat) (s : Scene)
    (limit? deadline? : Option Nat) (c : { c : Cursor // c.Valid }) (attempts : Nat) :
    Describes fuel s c.1 attempts (searchFrom clock fuel s limit? deadline? c attempts) := by
  obtain ⟨m, ⟨hfailed, -⟩, hends⟩ :=
    exists_passesOver clock fuel s limit? deadline? c attempts
  rcases hresult : searchFrom clock fuel s limit? deadline? c attempts with
    obstacle | ⟨p, a⟩ | a | ⟨a, next⟩ <;> rw [hresult] at hends
  · obtain ⟨p, hp, ht⟩ := hends
    exact ⟨m, p, hfailed, hp, ht⟩
  · obtain ⟨ha, hp, ht⟩ := hends
    exact ⟨m, ha, hfailed, hp, ht⟩
  · obtain ⟨ha, hnone⟩ := hends
    exact ⟨m, ha, hfailed, hnone⟩
  · obtain ⟨ha, hnext, hlast, -⟩ := hends
    have hindex := congrArg Cursor.index (Cursor.advanceBy_add c.1 m 1)
    exact ⟨m + 1, Nat.succ_pos m, ha, hfailed.concat hlast, hnext.trans hindex.symm⟩

theorem describes_search (clock : Nat → Id Nat) (fuel : Nat) (challenge : Challenge)
    (limits : Limits) :
    Describes fuel challenge.scene (challenge.space.cursor limits.start) 0
      (search clock fuel challenge limits) :=
  describes_searchFrom _ _ _ _ _ _ _

end TileRobot.Search
