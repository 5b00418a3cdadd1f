/-!
# Words over a finite alphabet, in order of length

A word is a list of letters, a letter being a number below the size of the alphabet. Shorter words
come first, and words of one length are in the order of the dictionary. Counting from zero, the
place of a word in this order is its *rank*. Read as digits that start at one, the letters of a word
are a numeral for its rank, which makes both directions short: `rank` is a fold, `unrank` divides.

## Main statements

* `rank_unrank` and `unrank_rank`: the two directions undo each other.
* `rank_next?` and `next?_eq_none_iff`: the successor of a word is the word of the next rank, and
  only the last word within a bound on the length has none.
* `rank_lt_count`: the words of at most `n` letters have the first `count a n` ranks.
-/

namespace TileRobot.Word

/-- The number of words of at most `n` letters over an alphabet of `a` letters. -/
def count (a : Nat) : Nat → Nat
  | 0 => 1
  | n + 1 => 1 + a * count a n

/-- The number of words of exactly `n` letters over an alphabet of `a` letters. -/
def countExactly (a : Nat) : Nat → Nat
  | 0 => 1
  | n + 1 => a * countExactly a n

theorem count_pos (a n : Nat) : 0 < count a n := by
  cases n <;> simp only [count] <;> omega

@[simp] theorem countExactly_zero (a : Nat) : countExactly a 0 = 1 := rfl

theorem countExactly_succ (a n : Nat) : countExactly a (n + 1) = a * countExactly a n := rfl

/-- The words of exactly `n + 1` letters come on top of the shorter ones. -/
theorem count_succ (a n : Nat) : count a (n + 1) = count a n + countExactly a (n + 1) := by
  induction n with
  | zero => rfl
  | succ n ih =>
    have hcount : count a (n + 1) = 1 + a * count a n := rfl
    have hstep : count a (n + 1 + 1) = 1 + a * count a (n + 1) := rfl
    rw [hstep, ih, Nat.mul_add, ← countExactly_succ, ← Nat.add_assoc, ← hcount, ih]

theorem count_le_count (a : Nat) {m n : Nat} (h : m ≤ n) : count a m ≤ count a n := by
  induction h with
  | refl => exact Nat.le_refl _
  | step _ ih => exact Nat.le_trans ih (by rw [count_succ]; omega)

/-- A word is over the alphabet of the letters below `a`. -/
def Over (a : Nat) (w : List Nat) : Prop := ∀ d ∈ w, d < a

instance (a : Nat) (w : List Nat) : Decidable (Over a w) :=
  inferInstanceAs (Decidable (∀ d ∈ w, d < a))

theorem over_replicate_zero {a : Nat} (ha : 0 < a) (n : Nat) : Over a (List.replicate n 0) :=
  fun _ hd ↦ (List.eq_of_mem_replicate hd) ▸ ha

/-! ### Ranks -/

/-- The place of a word among all words, counted from zero. -/
def rank (a : Nat) (w : List Nat) : Nat :=
  w.foldl (fun r d ↦ a * r + (d + 1)) 0

@[simp] theorem rank_nil (a : Nat) : rank a [] = 0 := rfl

theorem rank_concat (a : Nat) (w : List Nat) (d : Nat) :
    rank a (w ++ [d]) = a * rank a w + (d + 1) := by
  simp [rank]

theorem foldl_eq_add_rank (a : Nat) (w : List Nat) (r : Nat) :
    w.foldl (fun r d ↦ a * r + (d + 1)) r = r * countExactly a w.length + rank a w := by
  induction w generalizing r with
  | nil => simp
  | cons d w ih =>
    rw [rank, List.foldl_cons, List.foldl_cons, ih, ih (a * 0 + (d + 1)), List.length_cons,
      countExactly_succ, Nat.mul_zero, Nat.zero_add, Nat.add_mul, ← Nat.add_assoc]
    congr 2
    rw [← Nat.mul_assoc, Nat.mul_comm r a]

theorem rank_cons (a d : Nat) (w : List Nat) :
    rank a (d :: w) = (d + 1) * countExactly a w.length + rank a w := by
  rw [rank, List.foldl_cons, foldl_eq_add_rank, Nat.mul_zero, Nat.zero_add]

/-- The first word of a length comes right after the shorter ones. -/
theorem rank_replicate_zero (a n : Nat) :
    rank a (List.replicate n 0) + countExactly a n = count a n := by
  induction n with
  | zero => rfl
  | succ n ih =>
    rw [List.replicate_succ', rank_concat, count, ← ih, Nat.mul_add, countExactly_succ]
    omega

/-- Words of at most `n` letters have ranks below their number. -/
theorem rank_lt_count {a n : Nat} {w : List Nat} (hw : Over a w) (hlen : w.length ≤ n) :
    rank a w < count a n := by
  refine Nat.lt_of_lt_of_le ?_ (count_le_count a hlen)
  clear hlen
  induction w with
  | nil => simp [count]
  | cons d w ih =>
    have hd : d + 1 ≤ a := hw d (by simp)
    have hr := ih fun e he ↦ hw e (List.mem_cons_of_mem _ he)
    have hmul := Nat.mul_le_mul_right (countExactly a w.length) hd
    rw [rank_cons, List.length_cons, count_succ, countExactly_succ]
    omega

/-- Longer words have greater ranks: a word of `n` letters has at least the rank of the first. -/
theorem count_le_rank {a n : Nat} {w : List Nat} (hlen : w.length = n + 1) :
    count a n ≤ rank a w := by
  induction n generalizing w with
  | zero =>
    match w, hlen with
    | [d], _ =>
      rw [rank_cons]
      simp [count]
  | succ n ih =>
    match w, hlen with
    | d :: w, hlen =>
      have hw : w.length = n + 1 := by simpa using hlen
      have hr := ih hw
      have hmul := Nat.mul_le_mul_right (countExactly a (n + 1)) (Nat.le_add_left 1 d)
      rw [rank_cons, hw, count_succ]
      omega

/-! ### The word of a rank -/

/-- The word of a rank, put before the letters in `acc`. -/
def unrankOnto (a : Nat) : Nat → List Nat → List Nat
  | 0, acc => acc
  | n + 1, acc => unrankOnto a (n / a) (n % a :: acc)
termination_by n => n
decreasing_by exact Nat.lt_succ_of_le (Nat.div_le_self n a)

/-- The word of a rank. -/
def unrank (a n : Nat) : List Nat := unrankOnto a n []

theorem unrankOnto_eq_append (a n : Nat) (acc : List Nat) :
    unrankOnto a n acc = unrank a n ++ acc := by
  induction n using Nat.strongRecOn generalizing acc with
  | ind n ih =>
    cases n with
    | zero => simp [unrank, unrankOnto]
    | succ n =>
      have hlt : n / a < n + 1 := Nat.lt_succ_of_le (Nat.div_le_self n a)
      rw [unrank, unrankOnto, unrankOnto, ih _ hlt, ih _ hlt [n % a]]
      simp

@[simp] theorem unrank_zero (a : Nat) : unrank a 0 = [] := by
  simp [unrank, unrankOnto]

theorem unrank_succ (a n : Nat) : unrank a (n + 1) = unrank a (n / a) ++ [n % a] := by
  rw [unrank, unrankOnto, unrankOnto_eq_append]

/-- The word of a rank is over the alphabet, unless there are no letters to write it. -/
theorem over_unrank {a n : Nat} (h : 0 < a ∨ n = 0) : Over a (unrank a n) := by
  induction n using Nat.strongRecOn with
  | ind n ih =>
    cases n with
    | zero => simp [Over]
    | succ n =>
      have ha : 0 < a := by omega
      have hlt : n / a < n + 1 := Nat.lt_succ_of_le (Nat.div_le_self n a)
      rw [unrank_succ]
      intro d hd
      rcases List.mem_append.1 hd with hd | hd
      · exact ih _ hlt (.inl ha) d hd
      · rw [List.mem_singleton.1 hd]
        exact Nat.mod_lt _ ha

theorem rank_unrank {a n : Nat} : rank a (unrank a n) = n := by
  induction n using Nat.strongRecOn with
  | ind n ih =>
    cases n with
    | zero => simp
    | succ n =>
      rw [unrank_succ, rank_concat, ih _ (Nat.lt_succ_of_le (Nat.div_le_self n a))]
      have := Nat.div_add_mod n a
      omega

theorem unrank_rank {a : Nat} {w : List Nat} (hw : Over a w) : unrank a (rank a w) = w := by
  induction h : w.length generalizing w with
  | zero =>
    rw [List.length_eq_zero_iff.1 h]
    simp
  | succ k ih =>
    -- take the last letter off
    obtain ⟨v, d, rfl⟩ : ∃ v d, w = v ++ [d] :=
      ⟨w.dropLast, w.getLast (by intro e; simp [e] at h), (List.dropLast_concat_getLast _).symm⟩
    have hd : d < a := hw d (by simp)
    have hv : Over a v := fun e he ↦ hw e (by simp [he])
    rw [rank_concat, ← Nat.add_assoc, unrank_succ, Nat.mul_add_div (by omega),
      Nat.div_eq_of_lt hd, Nat.add_zero, Nat.mul_add_mod, Nat.mod_eq_of_lt hd,
      ih hv (by simpa using h)]

/-- The word of a rank has at most `n` letters exactly when the rank is one of the first. -/
theorem length_unrank_le_iff {a n r : Nat} (h : 0 < a ∨ r = 0) :
    (unrank a r).length ≤ n ↔ r < count a n := by
  constructor
  · intro hlen
    have := rank_lt_count (over_unrank h) hlen
    rwa [rank_unrank] at this
  · intro hr
    refine Nat.le_of_not_lt fun hlt ↦ ?_
    obtain ⟨k, hk⟩ : ∃ k, (unrank a r).length = k + 1 := ⟨(unrank a r).length - 1, by omega⟩
    have h₁ := count_le_rank (a := a) hk
    have h₂ := count_le_count a (show n ≤ k by omega)
    rw [rank_unrank] at h₁
    omega

/-! ### The next word -/

/-- The next word of the same length, or `none` after the last one. -/
def nextOfLength? (a : Nat) : List Nat → Option (List Nat)
  | [] => none
  | d :: w =>
    match nextOfLength? a w with
    | some w' => some (d :: w')
    | none => if d + 1 < a then some ((d + 1) :: List.replicate w.length 0) else none

/-- The next word of at most `n` letters, or `none` after the last one. -/
def next? (a n : Nat) (w : List Nat) : Option (List Nat) :=
  match nextOfLength? a w with
  | some w' => some w'
  | none => if w.length < n ∧ 0 < a then some (List.replicate (w.length + 1) 0) else none

theorem length_nextOfLength? {a : Nat} {w w' : List Nat} (h : nextOfLength? a w = some w') :
    w'.length = w.length := by
  induction w generalizing w' with
  | nil => simp [nextOfLength?] at h
  | cons d w ih =>
    simp only [nextOfLength?] at h
    split at h
    · rename_i v hv
      cases h
      simp [ih hv]
    · split at h
      · cases h
        simp
      · contradiction

theorem over_nextOfLength? {a : Nat} {w w' : List Nat} (hw : Over a w)
    (h : nextOfLength? a w = some w') : Over a w' := by
  induction w generalizing w' with
  | nil => simp [nextOfLength?] at h
  | cons d w ih =>
    have htail : Over a w := fun e he ↦ hw e (List.mem_cons_of_mem _ he)
    simp only [nextOfLength?] at h
    split at h
    · rename_i v hv
      cases h
      intro e he
      rcases List.mem_cons.1 he with rfl | he
      · exact hw e (by simp)
      · exact ih htail hv e he
    · split at h
      · rename_i hd
        cases h
        intro e he
        rcases List.mem_cons.1 he with rfl | he
        · exact hd
        · exact over_replicate_zero (by omega) _ e he
      · contradiction

/-- After the last word of a length come the words that are one letter longer. -/
theorem rank_of_nextOfLength?_eq_none {a : Nat} {w : List Nat} (hw : Over a w)
    (h : nextOfLength? a w = none) : rank a w + 1 = count a w.length := by
  induction w with
  | nil => rfl
  | cons d w ih =>
    have htail : Over a w := fun e he ↦ hw e (List.mem_cons_of_mem _ he)
    simp only [nextOfLength?] at h
    split at h
    · contradiction
    · rename_i hv
      split at h
      · contradiction
      · have hd : d < a := hw d (by simp)
        have hda : d + 1 = a := by omega
        rw [rank_cons, hda, Nat.add_assoc, ih htail hv, List.length_cons, count_succ,
          countExactly_succ]
        omega

theorem rank_nextOfLength? {a : Nat} {w w' : List Nat} (hw : Over a w)
    (h : nextOfLength? a w = some w') : rank a w' = rank a w + 1 := by
  induction w generalizing w' with
  | nil => simp [nextOfLength?] at h
  | cons d w ih =>
    have htail : Over a w := fun e he ↦ hw e (List.mem_cons_of_mem _ he)
    simp only [nextOfLength?] at h
    split at h
    · rename_i v hv
      cases h
      rw [rank_cons, rank_cons, length_nextOfLength? hv, ih htail hv]
      omega
    · rename_i hv
      split at h
      · cases h
        have hlast := rank_of_nextOfLength?_eq_none htail hv
        have hzero := rank_replicate_zero a w.length
        rw [rank_cons, rank_cons, List.length_replicate, Nat.add_mul (d + 1) 1, Nat.one_mul]
        omega
      · contradiction

theorem over_next? {a n : Nat} {w w' : List Nat} (hw : Over a w) (h : next? a n w = some w') :
    Over a w' := by
  simp only [next?] at h
  split at h
  · rename_i v hv
    cases h
    exact over_nextOfLength? hw hv
  · split at h
    · rename_i ha
      cases h
      exact over_replicate_zero ha.2 _
    · contradiction

theorem length_next?_le {a n : Nat} {w w' : List Nat} (hlen : w.length ≤ n)
    (h : next? a n w = some w') : w'.length ≤ n := by
  simp only [next?] at h
  split at h
  · rename_i v hv
    cases h
    rw [length_nextOfLength? hv]
    exact hlen
  · split at h
    · rename_i hn
      cases h
      rw [List.length_replicate]
      exact hn.1
    · contradiction

/-- The next word is the word of the next rank. -/
theorem rank_next? {a n : Nat} {w w' : List Nat} (hw : Over a w) (h : next? a n w = some w') :
    rank a w' = rank a w + 1 := by
  simp only [next?] at h
  split at h
  · rename_i v hv
    cases h
    exact rank_nextOfLength? hw hv
  · rename_i hv
    split at h
    · cases h
      have hlast := rank_of_nextOfLength?_eq_none hw hv
      have hzero := rank_replicate_zero a (w.length + 1)
      rw [count_succ] at hzero
      omega
    · contradiction

/-- Only the last word of at most `n` letters has no next one. -/
theorem next?_eq_none_iff {a n : Nat} {w : List Nat} (hw : Over a w) (hlen : w.length ≤ n) :
    next? a n w = none ↔ rank a w + 1 = count a n := by
  constructor
  · intro h
    simp only [next?] at h
    split at h
    · contradiction
    · rename_i hv
      split at h
      · contradiction
      · rename_i hn
        rw [rank_of_nextOfLength?_eq_none hw hv]
        by_cases he : w.length = n
        · rw [he]
        · -- without letters every word is empty, and there is one of them
          have ha : a = 0 := by omega
          have hw0 : w = [] := by
            cases w with
            | nil => rfl
            | cons d w => exact absurd (hw d (by simp)) (by omega)
          subst ha hw0
          cases n <;> simp [count]
  · intro h
    cases hnext : next? a n w with
    | none => rfl
    | some w' =>
      have hr := rank_next? hw hnext
      have hlt := rank_lt_count (over_next? hw hnext) (length_next?_le hlen hnext)
      omega

end TileRobot.Word
