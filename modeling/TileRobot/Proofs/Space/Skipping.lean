import Mathlib.Algebra.Group.Nat.Defs
import TileRobot.Proofs.Space.Odometer

/-!
# Starting again and skipping

An odometer can be put at an index, which divides the index among the wheels and writes each part
with the letters of a word, or it can be moved on to it, which carries from digit to digit and from
wheel to wheel. Both ways come to the same odometer, with the same digits, program and index, and
with the last program passed or not (`advanceBy?_odometer?_eq_odometer?`).

At the last program the carry goes through all wheels and leaves each of them empty. The division
comes to the same digits there: the index is the number of all programs, so the rank of the first
phrase is left, and one more time the number of all programs, by which the end is known
(`Phrase.unrankFrom_eq`). From there on an odometer that is moved stays, whereas one that is put at
a later index has other digits. `advanceBy?_odometer?` says what moving on comes to in general.
-/

namespace TileRobot

namespace Phrase

/-- The phrase of empty words is the first one. -/
theorem rank_replicate_nil (a : Nat) (bounds : List Nat) :
    rank a bounds (List.replicate bounds.length []) = 0 := by
  induction bounds with
  | nil => rfl
  | cons b bs ih =>
    rw [List.length_cons, List.replicate_succ, rank, ih, Word.rank_nil, Nat.mul_zero]

end Phrase

namespace Space

variable {s : Space} {o : Odometer} {ws : List (List Nat)} {i k n : Nat}

/-! ### Past the last program -/

theorem Odometer.advance?_of_done (ho : o.done = true) : o.advance? s = some o :=
  if_pos ho

theorem Odometer.advanceBy?_of_done (ho : o.done = true) (k : Nat) :
    o.advanceBy? s k = some o := by
  induction k with
  | zero => rfl
  | succ k ih => rw [advanceBy?, advance?_of_done ho, Option.bind_some, ih]

theorem Odometer.advanceBy?_add (o : Odometer) (m n : Nat) :
    o.advanceBy? s (m + n) = (o.advanceBy? s m).bind (·.advanceBy? s n) := by
  induction m generalizing o with
  | zero => rw [Nat.zero_add, advanceBy?, Option.bind_some]
  | succ m ih =>
    rw [Nat.succ_add, advanceBy?, advanceBy?, Option.bind_assoc]
    exact congrArg (o.advance? s).bind (funext fun o' ↦ ih o')

/-! ### Before the last program -/

/-- The odometer at the rank of a phrase, or a multiple of the size after it. -/
theorem odometer?_rank (hws : Phrase.Within s.radix s.bounds ws)
    (hlimit : Phrase.rank s.radix s.bounds ws + s.size * n < indexLimit)
    (hunary : s.radix = 1 → ∀ b ∈ s.bounds, b < Word.lengthLimit) :
    s.odometer? (Phrase.rank s.radix s.bounds ws + s.size * n) =
      some (s.spelled ws (Phrase.rank s.radix s.bounds ws + s.size * n)
        (decide (0 < n))) := by
  have hdivide : Phrase.unrankFrom s.radix s.bounds
      (Phrase.rank s.radix s.bounds ws + s.size * n) = (ws, n) :=
    Phrase.unrankFrom_eq hws hlimit
  rw [odometer?_eq hlimit fun _ ↦ hunary, hdivide]

/-- At an index below the size there is the odometer of a phrase. -/
theorem exists_odometer?_spelled (hi : i < s.size) (hlimit : i < indexLimit)
    (hunary : s.radix = 1 → ∀ b ∈ s.bounds, b < Word.lengthLimit) :
    ∃ ws, Phrase.Within s.radix s.bounds ws ∧ Phrase.rank s.radix s.bounds ws = i ∧
      s.odometer? i = some (s.spelled ws i false) := by
  obtain ⟨ws, hws⟩ : ∃ ws, Phrase.unrank? s.radix s.bounds i = some ws :=
    Option.ne_none_iff_exists'.1 fun hnone ↦
      Nat.not_lt.2 ((Phrase.unrank?_eq_none_iff hlimit).1 hnone) hi
  have hwithin := Phrase.within_of_unrank? hlimit hws
  obtain rfl := Phrase.rank_of_unrank? hlimit hws
  exact ⟨ws, hwithin, rfl, odometer?_rank (n := 0) hwithin hlimit hunary⟩

/-- **Moving on by one place comes to the odometer at the next index**, whichever wheel carries. -/
theorem advance?_odometer? (hletters : s.radix < Text.limit64)
    (hunary : s.radix = 1 → ∀ b ∈ s.bounds, b < Word.lengthLimit) (hi : i < s.size)
    (hlimit : i + 1 < indexLimit) :
    (s.odometer? i).bind (·.advance? s) = s.odometer? (i + 1) := by
  obtain ⟨ws, hws, rfl, hspelled⟩ := exists_odometer?_spelled hi (by omega) hunary
  rw [hspelled, Option.bind_some, advance?_spelled hletters hlimit hws]
  rcases hnext : Phrase.next? s.radix s.bounds ws with - | ws'
  · -- the last phrase: one time the size is left, and the rank of the first phrase
    have hlast : Phrase.rank s.radix s.bounds ws + 1 = s.size :=
      (Phrase.next?_eq_none_iff hws).1 hnext
    have hfirst := odometer?_rank (n := 1) (Phrase.within_replicate_nil s.radix s.bounds)
    rw [Phrase.rank_replicate_nil, Nat.zero_add, Nat.mul_one, ← hlast] at hfirst
    rw [hfirst hlimit hunary, hws.length_eq]
    rfl
  · have hrank := Phrase.rank_next? hws hnext
    have hat := odometer?_rank (n := 0) (Phrase.within_next? hws hnext)
    rw [Nat.mul_zero, Nat.add_zero, hrank] at hat
    exact (hat hlimit hunary).symm

/-- **Moving on comes to the odometer at the later index**, up to the end of the space. -/
theorem advanceBy?_odometer?_of_le (hletters : s.radix < Text.limit64)
    (hunary : s.radix = 1 → ∀ b ∈ s.bounds, b < Word.lengthLimit) (hle : i + k ≤ s.size)
    (hlimit : i + k < indexLimit) :
    (s.odometer? i).bind (·.advanceBy? s k) = s.odometer? (i + k) := by
  induction k generalizing i with
  | zero => exact Option.bind_fun_some (s.odometer? i)
  | succ k ih =>
    have hfirst := advance?_odometer? hletters hunary (show i < s.size by omega)
      (show i + 1 < indexLimit by omega)
    calc (s.odometer? i).bind (·.advanceBy? s (k + 1))
        = ((s.odometer? i).bind (·.advance? s)).bind (·.advanceBy? s k) :=
          (Option.bind_assoc ..).symm
      _ = (s.odometer? (i + 1)).bind (·.advanceBy? s k) := by rw [hfirst]
      _ = s.odometer? (i + 1 + k) := ih (by omega) (by omega)
      _ = s.odometer? (i + (k + 1)) := by rw [Nat.add_right_comm, Nat.add_assoc]

/-! ### At the end -/

/-- At the indices from the size on the last program has been passed. -/
theorem exists_odometer?_done (hi : s.size ≤ i) (hlimit : i < indexLimit)
    (hunary : s.radix = 1 → ∀ b ∈ s.bounds, b < Word.lengthLimit) :
    ∃ o, s.odometer? i = some o ∧ o.done = true := by
  refine ⟨_, odometer?_eq hlimit fun _ ↦ hunary, decide_eq_true (Nat.pos_of_ne_zero ?_)⟩
  intro hzero
  have hnone := (Phrase.unrank?_eq_none_iff hlimit).2 hi
  simp only [Phrase.unrank?, hzero, if_true] at hnone
  contradiction

/-- **An odometer that is moved on stops after the last program.** One that was put past it
stays. -/
theorem advanceBy?_odometer? (hletters : s.radix < Text.limit64)
    (hunary : s.radix = 1 → ∀ b ∈ s.bounds, b < Word.lengthLimit) (hlimit : i + k < indexLimit) :
    (s.odometer? i).bind (·.advanceBy? s k) = s.odometer? (max i (min (i + k) s.size)) := by
  rcases Nat.le_total (i + k) s.size with hle | hge
  · rw [Nat.min_eq_left hle, Nat.max_eq_right (Nat.le_add_right i k),
      advanceBy?_odometer?_of_le hletters hunary hle hlimit]
  · -- the end is reached in the first steps, and from there on nothing changes
    obtain ⟨m, n, rfl, hm⟩ : ∃ m n, k = m + n ∧ max i s.size = i + m :=
      ⟨s.size - i, k - (s.size - i), by omega, by omega⟩
    obtain ⟨o, ho, hdone⟩ :=
      exists_odometer?_done (hm ▸ Nat.le_max_right i s.size) (show i + m < _ by omega) hunary
    have hend : (s.odometer? i).bind (·.advanceBy? s m) = some o := by
      rcases Nat.le_total i s.size with hi | hi
      · rw [advanceBy?_odometer?_of_le hletters hunary (by omega) (by omega), ho]
      · obtain rfl : m = 0 := by omega
        rw [← ho]
        exact Option.bind_fun_some (s.odometer? i)
    calc (s.odometer? i).bind (·.advanceBy? s (m + n))
        = ((s.odometer? i).bind (·.advanceBy? s m)).bind (·.advanceBy? s n) := by
          rw [Option.bind_assoc]
          exact congrArg _ (funext fun o' ↦ o'.advanceBy?_add m n)
      _ = some o := by rw [hend, Option.bind_some, Odometer.advanceBy?_of_done hdone]
      _ = s.odometer? (max i (min (i + (m + n)) s.size)) := by rw [Nat.min_eq_right hge, hm, ho]

/-- **Restarting equals skipping.** Moving an odometer on comes to the same odometer as putting it
at the later index: to the same digits, program and index, and past the last program or not. That is
so up to the end of the space, or up to the last index if the space reaches beyond it, and no number
outgrows its place on either way. An odometer that has passed the last program does not change. -/
theorem advanceBy?_odometer?_eq_odometer? (hletters : s.radix < 2 ^ 64)
    (hunary : s.radix = 1 → ∀ b ∈ s.bounds, b < 2 ^ 32) (hlimit : i + k < 2 ^ 128)
    (hn : ∀ n, s.size? = some n → i + k ≤ n) :
    (∃ o, s.odometer? (i + k) = some o ∧ (s.odometer? i).bind (·.advanceBy? s k) = some o) ∧
      ∀ o : Odometer, o.done = true → o.advance? s = some o := by
  rw [← indexLimit_eq] at hlimit
  have hsame := advanceBy?_odometer?_of_le hletters hunary (add_le_size hlimit hn) hlimit
  have hput := odometer?_eq hlimit fun _ ↦ hunary
  exact ⟨⟨_, hput, hsame.trans hput⟩, fun o ho ↦ Odometer.advance?_of_done ho⟩

/-- Two routines of at most one slot, to be filled with moves. -/
def hops : Space := ⟨[1, 1], [⟨.forward, none⟩]⟩

/-- Five places on from the index two to the power of a hundred, the first routine having started
again twice; and two places on to the end of a space of four programs, where both routines have
started again. -/
theorem advanceBy?_odometer?_walks : (walks.radix < 2 ^ 64 ∧
      (walks.radix = 1 → ∀ b ∈ walks.bounds, b < 2 ^ 32) ∧ 2 ^ 100 + 5 < 2 ^ 128 ∧
      walks.size? = none ∧ ∃ o, walks.odometer? (2 ^ 100 + 5) = some o ∧
        (walks.odometer? (2 ^ 100)).bind (·.advanceBy? walks 5) = some o) ∧
    hops.size? = some 4 ∧ (hops.odometer? 2).bind (·.advanceBy? hops 2) =
      some ⟨[[], []], ⟨[[], []]⟩, 4, true⟩ := by
  have hsize : hops.size? = some 4 := by decide
  have hwalks := advanceBy?_odometer?_eq_odometer? (s := walks) (i := 2 ^ 100) (k := 5)
    (by decide) (by decide) (by decide) (by rw [size?_walks]; exact nofun)
  have hhops := advanceBy?_odometer?_eq_odometer? (s := hops) (i := 2) (k := 2) (by decide)
    (by decide) (by decide) (by rw [hsize]; exact fun n hn ↦ (Option.some.inj hn).le)
  obtain ⟨o, hput, hmoved⟩ := hhops.1
  have hend : hops.odometer? 4 = some ⟨[[], []], ⟨[[], []]⟩, 4, true⟩ := rfl
  obtain rfl := Option.some.inj (hend.symm.trans hput)
  exact ⟨⟨by decide, by decide, by decide, size?_walks, hwalks.1⟩, hsize, hmoved⟩

end Space

end TileRobot
