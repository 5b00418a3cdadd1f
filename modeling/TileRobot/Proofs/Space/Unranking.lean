import Mathlib.Algebra.Ring.GeomSum
import Mathlib.Data.Nat.Digits.Defs
import TileRobot.Proofs.Space.Cardinality
import TileRobot.Space.Odometer

/-!
# The word of a rank

Among all words over an alphabet those of fewer than `n` letters come first, and there are as many
of them as the powers below the `n`-th add up to (`Word.shorter`). So the rank of a word is the sum
of two parts, which its length and its letters make up (`Word.rank_eq_shorter_add`), and the word of
a rank can be sought by its length.

The search computes with numbers of 128 bits, in which a power may have no place. Such a power
counts as the greatest number instead. That does no harm, since the rank that is compared with it
has lost at least the empty word before and is smaller than the greatest number
(`Word.lt_width_iff`). So the search finds the same word as the division by the number of letters
does (`Word.spell?_eq`), up to the last rank.

* `Word.spell?_exact`: for more than one letter, which word is found at each rank.
-/

namespace TileRobot.Word

variable {a b m n r length place room : Nat}

/-! ### Ranks as sums -/

/-- The number of words of fewer than `n` letters. -/
def shorter (a n : Nat) : Nat := ∑ k ∈ Finset.range n, a ^ k

theorem shorter_zero (a : Nat) : shorter a 0 = 0 := Finset.sum_range_zero _

theorem shorter_succ (a n : Nat) : shorter a (n + 1) = shorter a n + a ^ n :=
  Finset.sum_range_succ _ _

theorem count_eq_shorter (a n : Nat) : count a n = shorter a (n + 1) := count_eq_sum a n

theorem shorter_le_shorter (a : Nat) (hmn : m ≤ n) : shorter a m ≤ shorter a n :=
  monotone_nat_of_le_succ (fun k ↦ (Nat.le_add_right _ _).trans_eq (shorter_succ a k).symm) hmn

/-- **The rank of a word** is the number of all shorter words and the number that its letters
write. -/
theorem rank_eq_shorter_add (a : Nat) (w : List Nat) :
    rank a w = shorter a w.length + Nat.ofDigits a w.reverse := by
  induction w using List.reverseRecOn with
  | nil => rfl
  | append_singleton w d ih =>
    have hshorter : shorter a (w.length + 1) = a * shorter a w.length + 1 := geom_sum_succ
    rw [rank_concat, ih, List.length_append, List.length_singleton, hshorter, List.reverse_append,
      List.reverse_singleton, List.singleton_append, Nat.ofDigits_cons]
    ring

/-! ### The length -/

/-- A rank lies among the words of just one length. -/
theorem eq_length_unrank_iff (h : 0 < a ∨ r = 0) :
    shorter a n ≤ r ∧ r < shorter a (n + 1) ↔ n = (unrank a r).length := by
  have hle : ∀ k, (unrank a r).length ≤ k ↔ r < shorter a (k + 1) := fun k ↦ by
    rw [length_unrank_le_iff h, count_eq_shorter]
  constructor
  · rintro ⟨hlow, hhigh⟩
    refine Nat.le_antisymm (Nat.le_of_not_lt fun hlt ↦ ?_) ((hle n).2 hhigh)
    obtain ⟨k, rfl⟩ : ∃ k, n = k + 1 := ⟨n - 1, by omega⟩
    have := (hle k).1 (Nat.le_of_lt_succ hlt)
    omega
  · rintro rfl
    refine ⟨Nat.le_of_not_lt fun hlt ↦ ?_, (hle _).1 le_rfl⟩
    rcases hlen : (unrank a r).length with - | k
    · rw [hlen, shorter_zero] at hlt
      omega
    · rw [hlen] at hlt
      have := (hle k).2 hlt
      omega

theorem width_of_lt (hn : a ^ n < indexLimit) : width a n = a ^ n := by
  rw [width, Nat.pow_eq, belowLimit?_of_lt hn, Option.getD_some]

theorem width_of_le (hn : indexLimit ≤ a ^ n) : width a n = indexLimit - 1 := by
  rw [width, Nat.pow_eq, belowLimit?_eq_none_iff.2 hn, Option.getD_none]

/-- What is left of a rank when the shorter words have been counted off is never as much as the
greatest number below the limit, so that a width that is too great to be told is not exceeded. -/
theorem lt_width_iff (hr : r < indexLimit) (hshort : shorter a n ≤ r) :
    r - shorter a n < width a n ↔ r < shorter a (n + 1) := by
  rw [shorter_succ]
  rcases Nat.lt_or_ge (a ^ n) indexLimit with hlt | hge
  · rw [width_of_lt hlt]
    omega
  · rw [width_of_le hge]
    -- the empty word is among those counted off
    have hone : 0 < shorter a n := by
      rcases n with - | n
      · rw [pow_zero] at hge
        exact absurd hge (by decide)
      · have := shorter_le_shorter a (show 1 ≤ n + 1 by omega)
        rw [shorter_succ, shorter_zero, pow_zero] at this
        omega
    omega

/-- The search for the length stops at the length of the word and not before. -/
theorem measureFrom?_eq (hr : r < indexLimit) (hlow : shorter a n ≤ r)
    (hhigh : r < shorter a (n + 1)) (hlength : length ≤ n) (hroom : n ≤ length + room) :
    measureFrom? a room length (r - shorter a length) = some (n, r - shorter a n) := by
  induction room generalizing length with
  | zero =>
    obtain rfl : length = n := by omega
    rw [measureFrom?, if_pos ((lt_width_iff hr hlow).2 hhigh)]
  | succ room ih =>
    rcases hlength.lt_or_eq with hlt | rfl
    · have hmore : shorter a (length + 1) ≤ r := (shorter_le_shorter a hlt).trans hlow
      have hshort : shorter a length ≤ r := (shorter_le_shorter a hlength).trans hlow
      have hwidth : width a length = a ^ length := by
        rw [shorter_succ] at hmore
        exact width_of_lt (by omega)
      rw [measureFrom?, if_neg fun h ↦ absurd ((lt_width_iff hr hshort).1 h) (Nat.not_lt.2 hmore),
        hwidth, Nat.sub_sub, ← shorter_succ]
      exact ih hlt (by omega)
    · rw [measureFrom?, if_pos ((lt_width_iff hr hlow).2 hhigh)]

/-- A word over an alphabet of more than one letter is not longer than the numbers are wide. -/
theorem length_unrank_lt_lengthLimit (ha : 2 ≤ a) (hr : r < indexLimit) :
    (unrank a r).length < lengthLimit := by
  have hle : (unrank a r).length ≤ 128 := by
    refine (length_unrank_le_iff (Or.inl (by omega))).2 (hr.trans_le ?_)
    calc indexLimit
        = 2 ^ 128 := indexLimit_eq
      _ ≤ a ^ 128 := Nat.pow_le_pow_left ha 128
      _ = countExactly a 128 := (countExactly_eq_pow a 128).symm
      _ ≤ count a 128 := countExactly_le_count a 128
  exact hle.trans_lt (by decide)

/-! ### The digits -/

/-- A number that has no more than `n` digits is written by `n` digits. -/
theorem exists_digitsOnto? (ha : 0 < a) (hr : r < a ^ n) (acc : List Nat) :
    ∃ w, digitsOnto? a n r acc = some (w ++ acc) ∧ w.length = n ∧ Over a w ∧
      Nat.ofDigits a w.reverse = r := by
  induction n generalizing r acc with
  | zero =>
    rw [pow_zero, Nat.lt_one_iff] at hr
    exact ⟨[], rfl, rfl, nofun, hr.symm⟩
  | succ n ih =>
    have hdiv : r / a < a ^ n := Nat.div_lt_of_lt_mul (by rwa [pow_succ'] at hr)
    obtain ⟨w, hw, hlength, hover, hvalue⟩ := ih hdiv (r % a :: acc)
    refine ⟨w ++ [r % a], ?_, ?_, ?_, ?_⟩
    · rw [digitsOnto?, if_neg ha.ne', hw, List.append_assoc, List.singleton_append]
    · rw [List.length_append, hlength, List.length_singleton]
    · exact List.forall_mem_append.2 ⟨hover, List.forall_mem_singleton.2 (Nat.mod_lt r ha)⟩
    · rw [List.reverse_append, List.reverse_singleton, List.singleton_append, Nat.ofDigits_cons,
        hvalue]
      exact Nat.mod_add_div r a

/-- **Seeking a word by its length finds the word of the rank**, whenever that word has a length
that can be told in 32 bits. -/
theorem spell?_eq (h : 0 < a ∨ r = 0) (hr : r < indexLimit)
    (hlength : (unrank a r).length < lengthLimit) : spell? a r = some (unrank a r) := by
  obtain ⟨hlow, hhigh⟩ := (eq_length_unrank_iff h).2 rfl
  have hmeasure : measureFrom? a (lengthLimit - 1) 0 (r - shorter a 0) =
      some ((unrank a r).length, r - shorter a (unrank a r).length) :=
    measureFrom?_eq hr hlow hhigh (Nat.zero_le _) (by omega)
  rw [shorter_zero, Nat.sub_zero] at hmeasure
  rw [spell?, measure?, hmeasure]
  show digitsOnto? a _ _ [] = _
  rcases h with ha | rfl
  · have hplace : r - shorter a (unrank a r).length < a ^ (unrank a r).length := by
      rw [shorter_succ] at hhigh
      omega
    obtain ⟨w, hw, hwlength, hover, hvalue⟩ := exists_digitsOnto? ha hplace []
    have hrank : rank a w = r := by
      rw [rank_eq_shorter_add, hwlength, hvalue, Nat.add_sub_cancel' hlow]
    rw [hw, List.append_nil, ← hrank, unrank_rank hover]
  · rw [unrank_zero]
    rfl

/-- A rank below the number of words within a bound leads to a word, provided that the words over a
single letter have lengths that can be told. The first word is found in any case. -/
theorem spell?_eq_of_lt_count {bound : Nat} (hr : r < indexLimit) (hcount : r < count a bound)
    (hunary : 0 < r → a = 1 → bound < lengthLimit) : spell? a r = some (unrank a r) := by
  have hpos : 0 < a ∨ r = 0 := by
    rcases Nat.eq_zero_or_pos a with rfl | ha
    · rw [count_eq_sum, zero_geom_sum, if_neg (Nat.succ_ne_zero bound)] at hcount
      exact Or.inr (Nat.lt_one_iff.1 hcount)
    · exact Or.inl ha
  refine spell?_eq hpos hr ?_
  rcases Nat.eq_zero_or_pos r with rfl | hrank
  · rw [unrank_zero]
    decide
  · have ha : 0 < a := hpos.resolve_right hrank.ne'
    rcases Nat.lt_or_ge 1 a with htwo | hone
    · exact length_unrank_lt_lengthLimit htwo hr
    · exact ((length_unrank_le_iff hpos).2 hcount).trans_lt (hunary hrank (by omega))

/-- **A word is found for every rank of 128 bits**, if there is more than one letter. It is the only
one of its rank: it has the one length among whose words the rank lies, its letters write the place
of the rank among them, and no other rank leads to it. It keeps within a bound whenever the rank is
below the number of words within the bound, or this number is not below the limit. -/
theorem spell?_exact (ha : 2 ≤ a) (hb : b < 2 ^ 128) :
    ∃ w, spell? a b = some w ∧ Over a w ∧
      (∀ n, ∑ k ∈ Finset.range n, a ^ k ≤ b ∧ b < ∑ k ∈ Finset.range (n + 1), a ^ k ↔
        n = w.length) ∧
      Nat.ofDigits a w.reverse = b - ∑ k ∈ Finset.range w.length, a ^ k ∧
      (∀ c < 2 ^ 128, spell? a c = some w → c = b) ∧
      ∀ bound, (∀ count, count? a bound = some count → b < count) → w.length ≤ bound := by
  have hpos : 0 < a := by omega
  have hspell : ∀ c < 2 ^ 128, spell? a c = some (unrank a c) := by
    intro c hc
    rw [← indexLimit_eq] at hc
    exact spell?_eq (Or.inl hpos) hc (length_unrank_lt_lengthLimit ha hc)
  refine ⟨unrank a b, hspell b hb, over_unrank (Or.inl hpos),
    fun n ↦ eq_length_unrank_iff (Or.inl hpos), ?_, ?_, ?_⟩
  · have hrank := rank_eq_shorter_add a (unrank a b)
    rw [rank_unrank] at hrank
    show _ = b - shorter a _
    omega
  · intro c hc hcw
    have heq := Option.some.inj ((hspell c hc).symm.trans hcw)
    rw [← rank_unrank (a := a) (n := c), heq, rank_unrank]
  · intro bound hbound
    rw [length_unrank_le_iff (Or.inl hpos)]
    rcases Nat.lt_or_ge (count a bound) indexLimit with hlt | hge
    · exact hbound _ ((count?_eq a bound).trans (belowLimit?_of_lt hlt))
    · rw [← indexLimit_eq] at hb
      exact hb.trans_le hge

/-- Over two letters the last rank of all is that of the first word of 128 letters. The number of
these words is the first that has no place. -/
theorem spell?_exact_twoLetters : 2 ≤ 2 ∧ 2 ^ 128 - 1 < 2 ^ 128 ∧
    ∃ w, spell? 2 (2 ^ 128 - 1) = some w ∧ w.length = 128 ∧ Nat.ofDigits 2 w.reverse = 0 := by
  have hlast : 2 ^ 128 - 1 < 2 ^ 128 := by decide
  have hsum : ∀ n, ∑ k ∈ Finset.range n, 2 ^ k = 2 ^ n - 1 := fun n ↦ by
    rw [Nat.geomSum_eq le_rfl, Nat.div_one]
  obtain ⟨w, hw, -, hlength, hvalue, -⟩ := spell?_exact le_rfl hlast
  have hwlength : 128 = w.length := (hlength 128).1 (by rw [hsum, hsum]; decide)
  rw [← hwlength, hsum, Nat.sub_self] at hvalue
  exact ⟨le_rfl, hlast, w, hw, hwlength.symm, hvalue⟩

end TileRobot.Word
