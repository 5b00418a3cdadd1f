import TileRobot.Space.Word
/-!
# Phrases

A phrase is a list of words, one for each bound in a list, and each word is no longer than its
bound. Phrases are ordered so that the first word changes fastest: the rank of a phrase is a number
in a mixed radix whose digits are the ranks of its words, the first being the least significant.

Ranks are taken below `indexLimit`. A count that reaches the limit is not computed, and need not be:
no rank below the limit can carry out of a word with so many possibilities.

## Main statements

* `count?_eq`: the number of phrases is found exactly when it is below the limit.
* `rank_of_unrank?`: the phrase at a rank has that rank.
* `rank_next?` and `next?_eq_none_iff`: the successor of a phrase is the phrase of the next rank,
  and only the last phrase has none.
-/

namespace TileRobot

/-- The limit below which phrases are numbered: the first number that has no place in 128 bits. -/
def indexLimit : Nat := 0x1_0000_0000_0000_0000_0000_0000_0000_0000

/-- A number, if it is below the limit. -/
def belowLimit? (n : Nat) : Option Nat := if n < indexLimit then some n else none

theorem belowLimit?_eq_some_iff {m n : Nat} :
    belowLimit? m = some n ↔ m = n ∧ n < indexLimit := by
  simp only [belowLimit?]
  split
  · simp only [Option.some.injEq]
    exact ⟨fun h ↦ ⟨h, h ▸ by assumption⟩, And.left⟩
  · simp only [reduceCtorEq, false_iff]
    rintro ⟨rfl, h⟩
    contradiction

theorem belowLimit?_of_lt {n : Nat} (h : n < indexLimit) : belowLimit? n = some n := by
  simp [belowLimit?, h]

theorem belowLimit?_eq_none_iff {n : Nat} : belowLimit? n = none ↔ indexLimit ≤ n := by
  simp [belowLimit?]

namespace Word

/-- Adds up the words of `n` further lengths, where `total` words are shorter and `power` words have
the next length. Sums and powers have to stay below the limit, and there is no power to be formed
after the last length. -/
def countFrom? (a : Nat) : Nat → Nat → Nat → Option Nat
  | 0, total, power => belowLimit? (total + power)
  | n + 1, total, power =>
    if total + power < indexLimit ∧ power * a < indexLimit then
      countFrom? a n (total + power) (power * a)
    else none

/-- The number of words of at most `n` letters, if it is below the limit. -/
def count? (a n : Nat) : Option Nat := countFrom? a n 0 1

theorem countExactly_le_count (a n : Nat) : countExactly a n ≤ count a n := by
  rw [← rank_replicate_zero]
  exact Nat.le_add_left _ _

/-- A sum or a power that reaches the limit does so only if the number of words does. -/
theorem countFrom?_countExactly (a m n : Nat) {total : Nat}
    (htotal : total + countExactly a m = count a m) :
    countFrom? a n total (countExactly a m) = belowLimit? (count a (m + n)) := by
  induction n generalizing m total with
  | zero => rw [countFrom?, htotal, Nat.add_zero]
  | succ n ih =>
    have hpower : countExactly a m * a = countExactly a (m + 1) := by
      rw [countExactly_succ, Nat.mul_comm]
    rw [countFrom?, htotal, hpower]
    split
    · rw [ih (m + 1) (count_succ a m).symm, Nat.add_right_comm, Nat.add_assoc]
    · -- neither is greater than the number of words that is asked for
      rename_i hlimit
      have hsum := count_le_count a (show m ≤ m + (n + 1) by omega)
      have hlength := countExactly_le_count a (m + 1)
      have hcount := count_le_count a (show m + 1 ≤ m + (n + 1) by omega)
      exact (belowLimit?_eq_none_iff.2 (by omega)).symm

/-- The count is found exactly when it is below the limit. -/
theorem count?_eq (a n : Nat) : count? a n = belowLimit? (count a n) := by
  have h := countFrom?_countExactly a 0 n (Nat.zero_add _)
  rwa [Nat.zero_add] at h

end Word

namespace Phrase

/-- The number of phrases within bounds. -/
def count (a : Nat) : List Nat → Nat
  | [] => 1
  | b :: bs => Word.count a b * count a bs

theorem count_pos (a : Nat) (bounds : List Nat) : 0 < count a bounds := by
  induction bounds with
  | nil => simp [count]
  | cons b bs ih => exact Nat.mul_pos (Word.count_pos a b) ih

/-- The number of phrases within bounds, if it is below the limit: a product that is formed factor
by factor, where every factor and every intermediate product has to be below the limit. -/
def count? (a : Nat) (bounds : List Nat) : Option Nat :=
  bounds.foldlM (fun total b ↦ (Word.count? a b).bind fun c ↦ belowLimit? (total * c)) 1

theorem foldlM_count?_eq (a : Nat) (bounds : List Nat) {total : Nat} (hpos : 0 < total)
    (h : total < indexLimit) :
    bounds.foldlM (fun total b ↦ (Word.count? a b).bind fun c ↦ belowLimit? (total * c)) total
      = belowLimit? (total * count a bounds) := by
  induction bounds generalizing total with
  | nil => simp [belowLimit?, count, h]
  | cons b bs ih =>
    have hcb := Word.count_pos a b
    have hcbs := count_pos a bs
    rw [List.foldlM_cons, Word.count?_eq]
    by_cases hb : Word.count a b < indexLimit
    · by_cases hprod : total * Word.count a b < indexLimit
      · rw [belowLimit?_of_lt hb, Option.bind_some, belowLimit?_of_lt hprod]
        change bs.foldlM _ (total * Word.count a b) = _
        rw [ih (Nat.mul_pos hpos hcb) hprod, count, Nat.mul_assoc]
      · have hle := Nat.le_mul_of_pos_right (total * Word.count a b) hcbs
        rw [Nat.mul_assoc] at hle
        have hnone : belowLimit? (total * count a (b :: bs)) = none :=
          belowLimit?_eq_none_iff.2 (by rw [count]; omega)
        rw [hnone]
        simp [belowLimit?, hb, hprod]
    · have hle := Nat.le_mul_of_pos_right (Word.count a b) hcbs
      have hle' := Nat.le_mul_of_pos_left (Word.count a b * count a bs) hpos
      have hnone : belowLimit? (total * count a (b :: bs)) = none :=
        belowLimit?_eq_none_iff.2 (by rw [count]; omega)
      rw [hnone]
      simp [belowLimit?, hb]

/-- The number of phrases is found exactly when it is below the limit. -/
theorem count?_eq (a : Nat) (bounds : List Nat) :
    count? a bounds = belowLimit? (count a bounds) := by
  rw [count?, foldlM_count?_eq a bounds Nat.one_pos (by decide), Nat.one_mul]

/-- A phrase is within bounds over an alphabet of `a` letters when it has one word for each bound,
and each word is over the alphabet and no longer than its bound. -/
def Within (a : Nat) : List Nat → List (List Nat) → Prop
  | [], [] => True
  | b :: bs, w :: ws => (Word.Over a w ∧ w.length ≤ b) ∧ Within a bs ws
  | _, _ => False

/-! ### Ranks -/

/-- The place of a phrase among those within the bounds, counted from zero. -/
def rank (a : Nat) : List Nat → List (List Nat) → Nat
  | b :: bs, w :: ws => Word.rank a w + Word.count a b * rank a bs ws
  | _, _ => 0

theorem rank_lt_count {a : Nat} {bounds : List Nat} {ws : List (List Nat)}
    (h : Within a bounds ws) : rank a bounds ws < count a bounds := by
  induction bounds generalizing ws with
  | nil => simp [rank, count]
  | cons b bs ih =>
    match ws, h with
    | w :: ws, ⟨⟨hw, hlen⟩, hws⟩ =>
      have hr := Word.rank_lt_count hw hlen
      have hmul := Nat.mul_le_mul_left (Word.count a b) (ih hws)
      rw [Nat.mul_add_one] at hmul
      rw [rank, count]
      omega

/-- Divides a rank among the words of a phrase. What is left over when all words have got their
part comes second; it is zero exactly when there is a phrase at the rank. -/
def unrankFrom (a : Nat) : List Nat → Nat → List (List Nat) × Nat
  | [], r => ([], r)
  | b :: bs, r =>
    match Word.count? a b with
    | some c =>
      let (ws, left) := unrankFrom a bs (r / c)
      (Word.unrank a (r % c) :: ws, left)
    | none =>
      let (ws, left) := unrankFrom a bs 0
      (Word.unrank a r :: ws, left)

/-- The phrase at a rank below the limit, if there are so many. -/
def unrank? (a : Nat) (bounds : List Nat) (r : Nat) : Option (List (List Nat)) :=
  let (ws, left) := unrankFrom a bounds r
  if left = 0 then some ws else none

/-- Dividing a rank keeps it: the ranks of the words and what is left make it up again. -/
theorem rank_unrankFrom {a : Nat} {bounds : List Nat} {r : Nat} (hr : r < indexLimit) :
    rank a bounds (unrankFrom a bounds r).1 + count a bounds * (unrankFrom a bounds r).2 = r := by
  induction bounds generalizing r with
  | nil => simp [rank, unrankFrom, count]
  | cons b bs ih =>
    simp only [unrankFrom, Word.count?_eq]
    by_cases hb : Word.count a b < indexLimit
    · have hdiv : r / Word.count a b < indexLimit := Nat.lt_of_le_of_lt (Nat.div_le_self _ _) hr
      have hsplit := ih hdiv
      have hr' := Nat.mod_add_div r (Word.count a b)
      simp only [belowLimit?, hb, if_true, rank, count, Word.rank_unrank]
      rw [← hsplit, Nat.mul_add, ← Nat.add_assoc, ← Nat.mul_assoc] at hr'
      exact hr'
    · have hsplit := ih (r := 0) (by decide)
      simp only [belowLimit?, hb, if_false, rank, count, Word.rank_unrank]
      have h₁ : rank a bs (unrankFrom a bs 0).1 = 0 := by omega
      have h₂ : count a bs * (unrankFrom a bs 0).2 = 0 := by omega
      rw [h₁, Nat.mul_assoc, h₂]
      simp

theorem within_unrankFrom {a : Nat} {bounds : List Nat} {r : Nat} (hr : r < indexLimit) :
    Within a bounds (unrankFrom a bounds r).1 := by
  induction bounds generalizing r with
  | nil => simp [Within, unrankFrom]
  | cons b bs ih =>
    have hcount : ∀ {q : Nat}, q < Word.count a b →
        Word.Over a (Word.unrank a q) ∧ (Word.unrank a q).length ≤ b := by
      intro q hq
      have ha : 0 < a ∨ q = 0 := by
        rcases Nat.eq_zero_or_pos a with rfl | ha
        · right
          cases b <;> simp [Word.count] at hq <;> exact hq
        · exact .inl ha
      exact ⟨Word.over_unrank ha, (Word.length_unrank_le_iff ha).2 hq⟩
    simp only [unrankFrom, Word.count?_eq]
    by_cases hb : Word.count a b < indexLimit
    · simp only [belowLimit?, hb, if_true]
      exact ⟨hcount (Nat.mod_lt _ (Word.count_pos a b)),
        ih (Nat.lt_of_le_of_lt (Nat.div_le_self _ _) hr)⟩
    · simp only [belowLimit?, hb, if_false]
      exact ⟨hcount (by omega), ih (by decide)⟩

/-- The phrase at a rank is within the bounds. -/
theorem within_of_unrank? {a : Nat} {bounds : List Nat} {r : Nat} {ws : List (List Nat)}
    (hr : r < indexLimit) (h : unrank? a bounds r = some ws) : Within a bounds ws := by
  simp only [unrank?] at h
  split at h
  · cases h
    exact within_unrankFrom hr
  · contradiction

/-- The phrase at a rank has that rank. -/
theorem rank_of_unrank? {a : Nat} {bounds : List Nat} {r : Nat} {ws : List (List Nat)}
    (hr : r < indexLimit) (h : unrank? a bounds r = some ws) : rank a bounds ws = r := by
  simp only [unrank?] at h
  split at h
  · rename_i hleft
    cases h
    have hsplit : rank a bounds (unrankFrom a bounds r).1
        + count a bounds * (unrankFrom a bounds r).2 = r := rank_unrankFrom hr
    rwa [hleft, Nat.mul_zero, Nat.add_zero] at hsplit
  · contradiction

/-! ### The next phrase -/

/-- The next phrase within the bounds, or `none` after the last one: the first word that has a next
one moves on, and the words before it start again. -/
def next? (a : Nat) : List Nat → List (List Nat) → Option (List (List Nat))
  | b :: bs, w :: ws =>
    match Word.next? a b w with
    | some w' => some (w' :: ws)
    | none => (next? a bs ws).map ([] :: ·)
  | _, _ => none

theorem within_next? {a : Nat} {bounds : List Nat} {ws ws' : List (List Nat)}
    (h : Within a bounds ws) (hnext : next? a bounds ws = some ws') : Within a bounds ws' := by
  induction bounds generalizing ws ws' with
  | nil => simp [next?] at hnext
  | cons b bs ih =>
    match ws, h with
    | w :: ws, ⟨⟨hw, hlen⟩, hws⟩ =>
      simp only [next?] at hnext
      split at hnext
      · rename_i v hv
        cases hnext
        exact ⟨⟨Word.over_next? hw hv, Word.length_next?_le hlen hv⟩, hws⟩
      · obtain ⟨vs, hvs, rfl⟩ := Option.map_eq_some_iff.1 hnext
        exact ⟨⟨by simp [Word.Over], by simp⟩, ih hws hvs⟩

/-- The next phrase is the phrase of the next rank. -/
theorem rank_next? {a : Nat} {bounds : List Nat} {ws ws' : List (List Nat)}
    (h : Within a bounds ws) (hnext : next? a bounds ws = some ws') :
    rank a bounds ws' = rank a bounds ws + 1 := by
  induction bounds generalizing ws ws' with
  | nil => simp [next?] at hnext
  | cons b bs ih =>
    match ws, h with
    | w :: ws, ⟨⟨hw, hlen⟩, hws⟩ =>
      simp only [next?] at hnext
      split at hnext
      · rename_i v hv
        cases hnext
        rw [rank, rank, Word.rank_next? hw hv]
        omega
      · rename_i hv
        obtain ⟨vs, hvs, rfl⟩ := Option.map_eq_some_iff.1 hnext
        have hlast := (Word.next?_eq_none_iff hw hlen).1 hv
        rw [rank, rank, ih hws hvs, Word.rank_nil, Nat.mul_add_one]
        omega

/-- Only the last phrase within the bounds has no next one. -/
theorem next?_eq_none_iff {a : Nat} {bounds : List Nat} {ws : List (List Nat)}
    (h : Within a bounds ws) :
    next? a bounds ws = none ↔ rank a bounds ws + 1 = count a bounds := by
  constructor
  · intro hnone
    induction bounds generalizing ws with
    | nil => simp [rank, count]
    | cons b bs ih =>
      match ws, h with
      | w :: ws, ⟨⟨hw, hlen⟩, hws⟩ =>
        simp only [next?] at hnone
        split at hnone
        · contradiction
        · rename_i hv
          have hlast := (Word.next?_eq_none_iff hw hlen).1 hv
          rw [rank, count, ← ih hws (Option.map_eq_none_iff.1 hnone), Nat.mul_add_one]
          omega
  · intro hlast
    cases hnext : next? a bounds ws with
    | none => rfl
    | some ws' =>
      have hr := rank_next? h hnext
      have hlt := rank_lt_count (within_next? h hnext)
      omega

/-- How many phrases come after this one. -/
def remaining (a : Nat) (bounds : List Nat) (ws : List (List Nat)) : Nat :=
  count a bounds - rank a bounds ws

theorem remaining_next?_lt {a : Nat} {bounds : List Nat} {ws ws' : List (List Nat)}
    (h : Within a bounds ws) (hnext : next? a bounds ws = some ws') :
    remaining a bounds ws' < remaining a bounds ws := by
  have hr := rank_next? h hnext
  have hlt := rank_lt_count h
  simp only [remaining]
  omega

end Phrase

end TileRobot
