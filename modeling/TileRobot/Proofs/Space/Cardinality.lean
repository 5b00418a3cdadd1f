import Mathlib.Algebra.BigOperators.Group.List.Lemmas
import Mathlib.Algebra.BigOperators.Intervals
import TileRobot.Proofs.Space.Restart

/-!
# How many programs there are

A routine of at most so many slots is filled with a word of any length up to that bound, and a
program is made of one routine for each bound. So the routines are counted by a sum of powers
(`Space.routineCount`) and the programs by a product of such sums (`Space.size_eq_prod`).

Both counts are computed step by step, and a step that comes to the limit gives the count up. This
is no loss. Each power and each sum is part of the final sum, and no factor of a product is zero, so
what comes to the limit on the way comes to it in the end (`Space.count_exact`).

A cursor does not use the number of all programs. It divides its index by the counts of the
routines, and one that is given up takes all that is left. It is past the end exactly where the
index is not below the number of programs (`Space.current?_cursor_eq_none_iff_size?`).
-/

namespace TileRobot

theorem indexLimit_eq : indexLimit = 2 ^ 128 := by decide

theorem belowLimit?_eq_ite (n : Nat) : belowLimit? n = if n < 2 ^ 128 then some n else none := by
  rw [belowLimit?, indexLimit_eq]

/-! ### Words and phrases -/

theorem Word.countExactly_eq_pow (a n : Nat) : countExactly a n = a ^ n := by
  induction n with
  | zero => rw [countExactly_zero, pow_zero]
  | succ n ih => rw [countExactly_succ, ih, pow_succ']

/-- The words of at most `n` letters are those of each length up to `n`. -/
theorem Word.count_eq_sum (a n : Nat) : count a n = ∑ k ∈ Finset.range (n + 1), a ^ k := by
  induction n with
  | zero => rw [Finset.sum_range_one, pow_zero, count]
  | succ n ih => rw [count_succ, Finset.sum_range_succ, ← ih, countExactly_eq_pow]

theorem Phrase.count_eq_prod (a : Nat) (bounds : List Nat) :
    count a bounds = (bounds.map (Word.count a)).prod := by
  induction bounds with
  | nil => rfl
  | cons b bs ih => rw [count, List.map_cons, List.prod_cons, ih]

namespace Space

variable {s : Space} {i b : Nat}

/-! ### Programs -/

/-- The number of ways to fill a routine of at most `bound` slots: with so many instructions to
choose from for each slot, a power for each length. -/
def routineCount (s : Space) (bound : Nat) : Nat := ∑ k ∈ Finset.range (bound + 1), s.radix ^ k

theorem count_radix_eq (s : Space) : Word.count s.radix = s.routineCount :=
  funext (Word.count_eq_sum s.radix)

/-- The routines of a program are filled independently of each other. -/
theorem size_eq_prod (s : Space) : s.size = (s.bounds.map s.routineCount).prod := by
  rw [size, Phrase.count_eq_prod, count_radix_eq]

/-- **Counts are exact up to the limit.** The number of ways to fill a routine and the number of
programs are found exactly if they have a place in 128 bits, whatever the number of instructions and
the bounds. -/
theorem count_exact (s : Space) :
    (∀ bound, s.routineCount? bound =
        if s.routineCount bound < 2 ^ 128 then some (s.routineCount bound) else none) ∧
      s.size? =
        if (s.bounds.map s.routineCount).prod < 2 ^ 128 then
          some (s.bounds.map s.routineCount).prod
        else none := by
  constructor
  · intro bound
    rw [routineCount?, Word.count?_eq, count_radix_eq, belowLimit?_eq_ite]
  · rw [size?_eq, size_eq_prod, belowLimit?_eq_ite]

/-! ### Past the end -/

/-- The number of programs is no less than that of the ways to fill one of the routines. -/
theorem routineCount_le_size (hb : b ∈ s.bounds) : s.routineCount b ≤ s.size := by
  have hdvd : s.routineCount b ∣ s.size := by
    rw [size_eq_prod]
    exact List.dvd_prod (List.mem_map_of_mem hb)
  exact Nat.le_of_dvd (Phrase.count_pos _ _) hdvd

/-- If there are too many ways to fill one of the routines, there are too many programs. -/
theorem size?_eq_none_of_mem (hb : b ∈ s.bounds) (hnone : s.routineCount? b = none) :
    s.size? = none := by
  rw [routineCount?, Word.count?_eq, count_radix_eq, belowLimit?_eq_none_iff] at hnone
  rw [size?_eq, belowLimit?_eq_none_iff]
  exact hnone.trans (routineCount_le_size hb)

/-- **A cursor is past the end exactly if its index is outside the space.** In a space whose size is
not found there is a program at every index, be it that one of the routines has too many ways to be
filled, whichever it is, or that only all of them together do. -/
theorem current?_cursor_eq_none_iff_size? (s : Space) (hi : i < indexLimit) :
    ((s.cursor i).current? = none ↔ ∃ n, s.size? = some n ∧ n ≤ i) ∧
      ((∃ b ∈ s.bounds, s.routineCount? b = none) ∨ s.size? = none →
        ∃ p, (s.cursor i).current? = some p) := by
  have hpast : (s.cursor i).current? = none ↔ ∃ n, s.size? = some n ∧ n ≤ i := by
    rw [current?_cursor_eq_none_iff hi]
    constructor
    · intro hle
      exact ⟨s.size, s.size?_eq.trans (belowLimit?_of_lt (hle.trans_lt hi)), hle⟩
    · rintro ⟨n, hn, hle⟩
      exact (size_of_size?_eq_some hn).1.trans_le hle
  refine ⟨hpast, fun hsize ↦ ?_⟩
  have hnone : s.size? = none := by
    rcases hsize with ⟨b, hb, hroutine⟩ | hnone
    · exact size?_eq_none_of_mem hb hroutine
    · exact hnone
  refine Option.ne_none_iff_exists'.1 fun hcurrent ↦ ?_
  obtain ⟨n, hn, -⟩ := hpast.1 hcurrent
  rw [hnone] at hn
  contradiction

/-- In `walks` the second routine has too many ways to be filled, so the last index of all has a
program. -/
theorem exists_current?_walks : walks.routineCount? 200 = none ∧
    ∃ p, (walks.cursor (indexLimit - 1)).current? = some p := by
  have hroutine : walks.routineCount? 200 = none := by decide
  have hlast : indexLimit - 1 < indexLimit := by decide
  have hbound : 200 ∈ walks.bounds := List.mem_cons_of_mem _ List.mem_cons_self
  exact ⟨hroutine,
    (current?_cursor_eq_none_iff_size? walks hlast).2 (Or.inl ⟨200, hbound, hroutine⟩)⟩

end Space

end TileRobot
