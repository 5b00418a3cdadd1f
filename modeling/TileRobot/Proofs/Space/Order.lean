import Mathlib.Data.List.Shortlex
import TileRobot.Proofs.Space.Candidates

/-!
# The order of candidates

The programs of a space are ordered by what spells them. Two routines are compared by their lengths
first; of two routines of one length, the one comes first that has the earlier letter in the first
slot in which they differ. Two programs are compared by the last routine in which they differ
(`Space.Precedes`). A cursor goes through the programs in this order: the smaller index has the
program that precedes (`Space.precedes_iff_lt`).

That rests on the ranks of words and phrases, in which length, slots and routines come together in
one number.

* **A letter counts for more than all that follows it.** Words of one length have ranks that differ
  by less than their number (`Word.rank_lt_add_countExactly`), so the first letter in which they
  differ decides.
* **A word counts for more than all that stand before it.** The rank of a word is less than the
  number of words, by which the rest of the phrase is multiplied, so the last word in which two
  phrases differ decides (`Phrase.rank_lt_rank_iff`).
-/

namespace TileRobot

/-! ### Words -/

namespace Word

variable {a : Nat} {v w : List Nat}

theorem rank_lt_of_length_lt (hv : Over a v) (hlen : v.length < w.length) :
    rank a v < rank a w := by
  obtain ⟨n, hn⟩ : ∃ n, w.length = n + 1 := ⟨w.length - 1, by omega⟩
  exact (rank_lt_count hv (show v.length ≤ n by omega)).trans_le (count_le_rank hn)

/-- Words of one length have ranks that differ by less than their number. -/
theorem rank_lt_add_countExactly (hv : Over a v) (hlen : v.length = w.length) :
    rank a v < rank a w + countExactly a v.length := by
  rcases w with - | ⟨e, w⟩
  · rw [List.length_eq_zero_iff.1 hlen]
    exact Nat.one_pos
  · have hlt : rank a v < count a (w.length + 1) := rank_lt_count hv hlen.le
    have hle : count a w.length ≤ rank a (e :: w) := count_le_rank rfl
    rw [count_succ] at hlt
    rw [hlen, List.length_cons]
    omega

/-- Of two words of one length, the one that comes first in the dictionary has the smaller rank. -/
theorem rank_lt_of_lex (hv : Over a v) (hlen : v.length = w.length)
    (hlex : List.Lex (· < ·) v w) : rank a v < rank a w := by
  induction hlex with
  | nil => contradiction
  | @cons d v w hlex ih =>
    have hlen' : v.length = w.length := Nat.succ.inj hlen
    have hrest := ih (fun x hx ↦ hv x (List.mem_cons_of_mem _ hx)) hlen'
    rw [rank_cons, rank_cons, hlen']
    omega
  | @rel d v e w hlt =>
    -- the greater first letter counts for more than all that follows the smaller one
    have hlen' : v.length = w.length := Nat.succ.inj hlen
    have hrest := rank_lt_add_countExactly (fun x hx ↦ hv x (List.mem_cons_of_mem _ hx)) hlen'
    have hmul := Nat.mul_le_mul_right (countExactly a v.length) (show d + 1 + 1 ≤ e + 1 by omega)
    rw [rank_cons, rank_cons, ← hlen']
    rw [Nat.add_mul (d + 1), Nat.one_mul] at hmul
    omega

theorem rank_lt_of_shortlex (hv : Over a v) (hvw : List.Shortlex (· < ·) v w) :
    rank a v < rank a w := by
  rcases List.shortlex_def.1 hvw with hlen | ⟨hlen, hlex⟩
  · exact rank_lt_of_length_lt hv hlen
  · exact rank_lt_of_lex hv hlen hlex

/-- **The order of ranks is by length and then as in the dictionary.** -/
theorem rank_lt_rank_iff (hv : Over a v) (hw : Over a w) :
    rank a v < rank a w ↔ List.Shortlex (· < ·) v w := by
  refine ⟨fun hlt ↦ ?_, rank_lt_of_shortlex hv⟩
  -- words that do not come one before the other are equal
  by_contra hvw
  have hwv : ¬ List.Shortlex (· < ·) w v := fun hwv ↦ Nat.lt_asymm hlt (rank_lt_of_shortlex hw hwv)
  rw [Std.Trichotomous.trichotomous v w hvw hwv] at hlt
  exact Nat.lt_irrefl _ hlt

end Word

/-! ### Phrases -/

namespace Phrase

variable {a : Nat} {bounds : List Nat} {vs ws : List (List Nat)}

/-- One phrase precedes another of as many words if it has the smaller word at the last place at
which they differ, words being compared by length first and then as in the dictionary. -/
def Precedes : List (List Nat) → List (List Nat) → Prop
  | v :: vs, w :: ws => Precedes vs ws ∨ vs = ws ∧ List.Shortlex (· < ·) v w
  | _, _ => False

/-- In a number of two digits the second decides, the first only where the second is the same. -/
theorem add_mul_lt_add_mul_iff {c x y m n : Nat} (hx : x < c) (hy : y < c) :
    x + c * m < y + c * n ↔ m < n ∨ m = n ∧ x < y := by
  rcases Nat.lt_trichotomy m n with hlt | rfl | hgt
  · have hmul := Nat.mul_le_mul_left c (Nat.succ_le_of_lt hlt)
    rw [Nat.mul_succ] at hmul
    omega
  · omega
  · have hmul := Nat.mul_le_mul_left c (Nat.succ_le_of_lt hgt)
    rw [Nat.mul_succ] at hmul
    omega

/-- **The order of ranks is the order of phrases.** -/
theorem rank_lt_rank_iff (hvs : Within a bounds vs) (hws : Within a bounds ws) :
    rank a bounds vs < rank a bounds ws ↔ Precedes vs ws := by
  induction bounds generalizing vs ws with
  | nil =>
    rw [eq_nil_of_within_nil hvs, eq_nil_of_within_nil hws]
    simp [rank, Precedes]
  | cons b bs ih =>
    obtain ⟨v, vs, rfl, hv, hvlen, hvs⟩ := exists_of_within_cons hvs
    obtain ⟨w, ws, rfl, hw, hwlen, hws⟩ := exists_of_within_cons hws
    have hv' := Word.rank_lt_count hv hvlen
    have hw' := Word.rank_lt_count hw hwlen
    have heq : rank a bs vs = rank a bs ws ↔ vs = ws :=
      ⟨eq_of_rank_eq hvs hws, fun heq ↦ heq ▸ rfl⟩
    rw [rank, rank, add_mul_lt_add_mul_iff hv' hw', ih hvs hws, heq, Word.rank_lt_rank_iff hv hw,
      Precedes]

end Phrase

/-! ### Programs -/

namespace Space

variable {s : Space} {i j : Nat}

/-- The order of programs. One program precedes another if it has the smaller routine at the last
place at which they differ. Routines are compared by length first; of one length, that one is
smaller whose instruction has the earlier place among the letters in the first slot in which they
differ. -/
def Precedes (s : Space) (p q : Program) : Prop := Phrase.Precedes (s.spelling p) (s.spelling q)

/-- There is a phrase at each index below the limit and below the size, if the size is known. -/
theorem exists_unrank?_eq_some (hi : i < indexLimit) (hin : ∀ n, s.size? = some n → i < n) :
    ∃ ws, Phrase.unrank? s.radix s.bounds i = some ws := by
  refine Option.ne_none_iff_exists'.1 fun hnone ↦ ?_
  have hle : s.size ≤ i := (Phrase.unrank?_eq_none_iff hi).1 hnone
  have hsize : s.size? = some s.size := s.size?_eq.trans (belowLimit?_of_lt (hle.trans_lt hi))
  exact absurd (hin s.size hsize) (Nat.not_lt.2 hle)

/-- **The programs of a space come in the order of their indices.** There is a program at every
index that is below the size of the space, or below the limit if the space reaches beyond it; and of
two such indices the smaller one has the program that precedes the other. -/
theorem precedes_iff_lt (hletters : s.letters.Nodup) (hi : i < indexLimit) (hj : j < indexLimit)
    (hin : ∀ n, s.size? = some n → i < n) (hjn : ∀ n, s.size? = some n → j < n) :
    ∃ p q, (s.cursor i).current? = some p ∧ (s.cursor j).current? = some q ∧
      (s.Precedes p q ↔ i < j) := by
  obtain ⟨vs, hvs⟩ := exists_unrank?_eq_some hi hin
  obtain ⟨ws, hws⟩ := exists_unrank?_eq_some hj hjn
  have hvs' := Phrase.within_of_unrank? hi hvs
  have hws' := Phrase.within_of_unrank? hj hws
  refine ⟨s.program vs, s.program ws, Option.map_eq_some_iff.2 ⟨vs, hvs, rfl⟩,
    Option.map_eq_some_iff.2 ⟨ws, hws, rfl⟩, ?_⟩
  rw [Precedes, spelling_program hletters hvs', spelling_program hletters hws',
    ← Phrase.rank_lt_rank_iff hvs' hws', Phrase.rank_of_unrank? hi hvs,
    Phrase.rank_of_unrank? hj hws]

/-- Two routines of at most one slot, to be filled with moves and turns to the left. -/
def strolls : Space := ⟨[1, 1], [⟨.forward, none⟩, ⟨.left, none⟩]⟩

/-- The last routine decides: a turn in the first one comes before a move in the second. -/
theorem precedes_strolls : strolls.letters.Nodup ∧ strolls.size? = some 9 ∧
    (strolls.cursor 2).current? = some ⟨[[some ⟨.left, none⟩], []]⟩ ∧
      (strolls.cursor 3).current? = some ⟨[[], [some ⟨.forward, none⟩]]⟩ ∧
        strolls.Precedes ⟨[[some ⟨.left, none⟩], []]⟩ ⟨[[], [some ⟨.forward, none⟩]]⟩ := by
  have hletters : strolls.letters.Nodup := by decide
  have hsize : strolls.size? = some 9 := by decide
  have hbelow : ∀ i < 9, ∀ n, strolls.size? = some n → i < n := by
    intro i hi n hn
    rw [hsize] at hn
    exact Option.some.inj hn ▸ hi
  have hleft : (strolls.cursor 2).current? = some (strolls.program [[1], []]) :=
    have hwithin : Phrase.Within 2 [1, 1] [[1], []] :=
      ⟨⟨by decide, by decide⟩, ⟨by decide, by decide⟩, trivial⟩
    current?_cursor_rank (s := strolls) hwithin (by decide)
  have hforward : (strolls.cursor 3).current? = some (strolls.program [[], [0]]) :=
    have hwithin : Phrase.Within 2 [1, 1] [[], [0]] :=
      ⟨⟨by decide, by decide⟩, ⟨by decide, by decide⟩, trivial⟩
    current?_cursor_rank (s := strolls) hwithin (by decide)
  obtain ⟨p, q, hp, hq, hiff⟩ := precedes_iff_lt hletters (i := 2) (j := 3) (by decide) (by decide)
    (hbelow 2 (by decide)) (hbelow 3 (by decide))
  obtain rfl := Option.some.inj (hleft.symm.trans hp)
  obtain rfl := Option.some.inj (hforward.symm.trans hq)
  exact ⟨hletters, hsize, hleft, hforward, hiff.2 (by decide)⟩

end Space

end TileRobot
