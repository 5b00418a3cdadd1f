import Mathlib.Data.List.Forall2
import Mathlib.Data.List.Nodup
import Mathlib.Order.Nat
import TileRobot.Space.Basic

/-!
# The candidates of a space

The programs of a space are numbered without gaps and without repetitions. Phrases of equal rank are
equal (`Phrase.eq_of_rank_eq`), so a rank below the number of all phrases has exactly one, and
moving a cursor on is the same as putting it at the next index (`Space.advance_cursor`). What a
phrase spells is a program with one routine for each bound, no longer than the bound and with
letters of the space in all of its slots (`Space.Admits`), and every such program is spelled by a
phrase.

* `Space.exists_cursor_iff`: the programs at the indices below the size are the admitted ones.
* `Space.take_cursor_zero`: from the first index on a cursor goes through each of them once and
  stops.
-/

namespace TileRobot

/-! ### Phrases and their ranks -/

theorem Word.eq_of_rank_eq {a : Nat} {v w : List Nat} (hv : Word.Over a v) (hw : Word.Over a w)
    (heq : Word.rank a v = Word.rank a w) : v = w := by
  rw [← Word.unrank_rank hv, heq, Word.unrank_rank hw]

namespace Phrase

variable {a r : Nat} {bounds : List Nat} {vs ws : List (List Nat)}

theorem eq_nil_of_within_nil (hws : Within a [] ws) : ws = [] := by
  rcases ws with - | ⟨w, ws⟩
  · rfl
  · contradiction

/-- A phrase has a word for each bound. -/
theorem exists_of_within_cons {b : Nat} (hws : Within a (b :: bounds) ws) :
    ∃ v vs, ws = v :: vs ∧ Word.Over a v ∧ v.length ≤ b ∧ Within a bounds vs := by
  rcases ws with - | ⟨v, vs⟩
  · contradiction
  · exact ⟨v, vs, rfl, hws.1.1, hws.1.2, hws.2⟩

/-- The words of a phrase are over the alphabet. -/
theorem Within.over_of_mem {w : List Nat} (hws : Within a bounds ws) (hw : w ∈ ws) :
    Word.Over a w := by
  induction bounds generalizing ws with
  | nil =>
    rw [eq_nil_of_within_nil hws] at hw
    contradiction
  | cons b bs ih =>
    obtain ⟨v, vs, rfl, hv, -, hvs⟩ := exists_of_within_cons hws
    rcases List.mem_cons.1 hw with rfl | hw
    · exact hv
    · exact ih hvs hw

/-- A number has one remainder and one quotient. -/
theorem eq_and_eq_of_add_mul_eq {c x y m n : Nat} (hx : x < c) (hy : y < c)
    (heq : x + c * m = y + c * n) : x = y ∧ m = n := by
  obtain ⟨hm, hx'⟩ := (Nat.div_mod_unique (Nat.zero_lt_of_lt hx)).2 ⟨rfl, hx⟩
  obtain ⟨hn, hy'⟩ := (Nat.div_mod_unique (Nat.zero_lt_of_lt hy)).2 ⟨heq.symm, hy⟩
  exact ⟨hx'.symm.trans hy', hm.symm.trans hn⟩

/-- **Phrases of equal rank are equal.** -/
theorem eq_of_rank_eq (hvs : Within a bounds vs) (hws : Within a bounds ws)
    (heq : rank a bounds vs = rank a bounds ws) : vs = ws := by
  induction bounds generalizing vs ws with
  | nil => rw [eq_nil_of_within_nil hvs, eq_nil_of_within_nil hws]
  | cons b bs ih =>
    obtain ⟨v, vs, rfl, hv, hvlen, hvs⟩ := exists_of_within_cons hvs
    obtain ⟨w, ws, rfl, hw, hwlen, hws⟩ := exists_of_within_cons hws
    -- the first word is the remainder, the others the quotient
    obtain ⟨hfirst, hrest⟩ := eq_and_eq_of_add_mul_eq (Word.rank_lt_count hv hvlen)
      (Word.rank_lt_count hw hwlen) heq
    rw [Word.eq_of_rank_eq hv hw hfirst, ih hvs hws hrest]

/-- **A rank is divided in one way only**, into the rank of a phrase and a multiple of the number of
all phrases. -/
theorem unrankFrom_eq {left : Nat} (hws : Within a bounds ws)
    (hr : rank a bounds ws + count a bounds * left < indexLimit) :
    unrankFrom a bounds (rank a bounds ws + count a bounds * left) = (ws, left) := by
  have hvs : Within a bounds (unrankFrom a bounds _).1 := within_unrankFrom hr
  obtain ⟨hrank, hleft⟩ := eq_and_eq_of_add_mul_eq (rank_lt_count hvs) (rank_lt_count hws)
    (rank_unrankFrom hr)
  exact Prod.ext (eq_of_rank_eq hvs hws hrank) hleft

/-- There is no phrase exactly at the ranks from the number of all phrases on. -/
theorem unrank?_eq_none_iff (hr : r < indexLimit) :
    unrank? a bounds r = none ↔ count a bounds ≤ r := by
  rcases hunrank : unrank? a bounds r with - | ws
  · have hsplit : rank a bounds (unrankFrom a bounds r).1 +
        count a bounds * (unrankFrom a bounds r).2 = r := rank_unrankFrom hr
    have hleft : (unrankFrom a bounds r).2 ≠ 0 := by
      intro hzero
      simp only [unrank?, hzero, if_true] at hunrank
      contradiction
    have hle := Nat.le_mul_of_pos_right (count a bounds) (Nat.pos_of_ne_zero hleft)
    simp only [true_iff]
    omega
  · have hlt := rank_lt_count (within_of_unrank? hr hunrank)
    rw [rank_of_unrank? hr hunrank] at hlt
    simp only [reduceCtorEq, false_iff]
    omega

/-- The phrase at the rank of a phrase is that phrase. -/
theorem unrank?_rank (hws : Within a bounds ws) (hr : rank a bounds ws < indexLimit) :
    unrank? a bounds (rank a bounds ws) = some ws := by
  rcases hunrank : unrank? a bounds (rank a bounds ws) with - | vs
  · have hle := (unrank?_eq_none_iff hr).1 hunrank
    have hlt := rank_lt_count hws
    omega
  · rw [eq_of_rank_eq (within_of_unrank? hr hunrank) hws (rank_of_unrank? hr hunrank)]

/-- The next phrase is the phrase at the next rank. -/
theorem next?_eq_unrank? (hws : Within a bounds ws) (hr : rank a bounds ws + 1 < indexLimit) :
    next? a bounds ws = unrank? a bounds (rank a bounds ws + 1) := by
  rcases hnext : next? a bounds ws with - | vs
  · have hlast := (next?_eq_none_iff hws).1 hnext
    exact ((unrank?_eq_none_iff hr).2 hlast.ge).symm
  · rw [← rank_next? hws hnext] at hr ⊢
    exact (unrank?_rank (within_next? hws hnext) hr).symm

end Phrase

namespace Space

variable {s : Space} {c : Cursor} {i m n : Nat} {p : Program}

theorem size_of_size?_eq_some (hs : s.size? = some n) : s.size = n ∧ n < indexLimit :=
  belowLimit?_eq_some_iff.1 (s.size?_eq.symm.trans hs)

/-! ### Moving on -/

/-- There is a program exactly at the indices below the size. -/
theorem current?_cursor_eq_none_iff (hi : i < indexLimit) :
    (s.cursor i).current? = none ↔ s.size ≤ i :=
  Option.map_eq_none_iff.trans (Phrase.unrank?_eq_none_iff hi)

/-- At the rank of a phrase there is the program that it spells. -/
theorem current?_cursor_rank {ws : List (List Nat)} (hws : Phrase.Within s.radix s.bounds ws)
    (hr : Phrase.rank s.radix s.bounds ws < indexLimit) :
    (s.cursor (Phrase.rank s.radix s.bounds ws)).current? = some (s.program ws) :=
  Option.map_eq_some_iff.2 ⟨ws, Phrase.unrank?_rank hws hr, rfl⟩

/-- **Moving on is the same as starting at the next index.** -/
theorem advance_cursor (hi : i < s.size) (hlimit : i + 1 < indexLimit) :
    (s.cursor i).advance = s.cursor (i + 1) := by
  have hi' : i < indexLimit := (Nat.lt_succ_self i).trans hlimit
  obtain ⟨ws, hws⟩ : ∃ ws, Phrase.unrank? s.radix s.bounds i = some ws :=
    Option.ne_none_iff_exists'.1 fun hnone ↦
      absurd ((Phrase.unrank?_eq_none_iff hi').1 hnone) (Nat.not_le.2 hi)
  have hrank := Phrase.rank_of_unrank? hi' hws
  have hnext := Phrase.next?_eq_unrank? (Phrase.within_of_unrank? hi' hws) (hrank.symm ▸ hlimit)
  rw [hrank] at hnext
  simp only [Cursor.advance, cursor, hws, hnext]

theorem advanceBy_cursor (him : i + m ≤ s.size) (hlimit : i + m < indexLimit) :
    (s.cursor i).advanceBy m = s.cursor (i + m) := by
  induction m generalizing i with
  | zero => rfl
  | succ m ih =>
    rw [Cursor.advanceBy, advance_cursor (by omega) (by omega), ih (by omega) (by omega),
      Nat.add_right_comm, Nat.add_assoc]

/-! ### Taking programs one after the other -/

theorem Cursor.take_go (found : Array Program) (c : Cursor) (m : Nat) :
    Cursor.take.go found c m = (found.toList ++ (c.take m).1, (c.take m).2) := by
  induction m generalizing found c with
  | zero => simp only [take, take.go, List.append_nil]
  | succ m ih =>
    rcases hp : c.current? with - | p
    · simp only [take, take.go, hp, List.append_nil]
    · simp only [take, take.go, hp]
      rw [ih (found.push p), ih (#[].push p)]
      simp only [Array.toList_push, List.nil_append, List.append_assoc]

theorem Cursor.take_of_current?_eq_none (hc : c.current? = none) (m : Nat) :
    c.take m = ([], c) := by
  rcases m with - | m
  · rfl
  · simp only [take, take.go, hc]

theorem Cursor.take_succ_of_current?_eq_some (hp : c.current? = some p) (m : Nat) :
    c.take (m + 1) = (p :: (c.advance.take m).1, (c.advance.take m).2) := by
  simp only [take, take.go, hp]
  rw [take_go]
  rfl

/-- From an index on, a cursor takes the programs at the indices that follow. -/
theorem take_cursor {f : Nat → Program} (hn : s.size < indexLimit)
    (hf : ∀ i < s.size, (s.cursor i).current? = some (f i)) (him : i + m = s.size) (k : Nat) :
    (s.cursor i).take (m + k) = ((List.range' i m).map f, s.cursor s.size) := by
  induction m generalizing i with
  | zero =>
    obtain rfl : i = s.size := him
    exact Cursor.take_of_current?_eq_none ((current?_cursor_eq_none_iff hn).2 le_rfl) _
  | succ m ih =>
    have hi : i < s.size := by omega
    have hrest := ih (show i + 1 + m = s.size by omega)
    rw [Nat.add_right_comm, Cursor.take_succ_of_current?_eq_some (hf i hi),
      advance_cursor hi (show i + 1 < indexLimit by omega), hrest, List.range'_succ, List.map_cons]

/-! ### The admitted programs -/

/-- A program with one routine for each bound of the space, no longer than the bound, and with a
letter of the space in each slot. -/
def Admits (s : Space) (p : Program) : Prop :=
  List.Forall₂ (fun r bound ↦ r.length ≤ bound ∧ ∀ slot ∈ r, ∃ i ∈ s.letters, slot = some i)
    p.routines s.bounds

theorem forall_mem_routine {w : List Nat} (hw : Word.Over s.radix w) :
    ∀ slot ∈ s.routine w, ∃ i ∈ s.letters, slot = some i := by
  intro slot hslot
  obtain ⟨d, hd, rfl⟩ := List.mem_map.1 hslot
  have hlt : d < s.letters.length := hw d hd
  exact ⟨s.letters[d], List.getElem_mem hlt, List.getElem?_eq_getElem hlt⟩

/-- A routine that is filled with letters is spelled by a word. -/
theorem exists_routine_eq {r : Routine} (hr : ∀ slot ∈ r, ∃ i ∈ s.letters, slot = some i) :
    ∃ w, Word.Over s.radix w ∧ w.length = r.length ∧ s.routine w = r := by
  induction r with
  | nil => exact ⟨[], fun _ hd ↦ absurd hd List.not_mem_nil, rfl, rfl⟩
  | cons slot r ih =>
    obtain ⟨w, hw, hlen, rfl⟩ := ih fun slot hslot ↦ hr slot (List.mem_cons_of_mem _ hslot)
    obtain ⟨i, hi, rfl⟩ := hr slot List.mem_cons_self
    obtain ⟨d, hd, rfl⟩ := List.getElem_of_mem hi
    refine ⟨d :: w, ?_, congrArg (· + 1) hlen, ?_⟩
    · intro e he
      rcases List.mem_cons.1 he with rfl | he
      · exact hd
      · exact hw e he
    · rw [routine, List.map_cons, List.getElem?_eq_getElem hd, routine]

/-- **The admitted programs are those that a phrase spells.** -/
theorem admits_iff : s.Admits p ↔ ∃ ws, Phrase.Within s.radix s.bounds ws ∧ s.program ws = p := by
  obtain ⟨routines⟩ := p
  simp only [Admits, program, Program.mk.injEq]
  generalize s.bounds = bounds
  constructor
  · intro hp
    induction hp with
    | nil => exact ⟨[], trivial, rfl⟩
    | cons hr hrest ih =>
      obtain ⟨ws, hws, rfl⟩ := ih
      obtain ⟨w, hw, hlen, rfl⟩ := exists_routine_eq hr.2
      exact ⟨w :: ws, ⟨⟨hw, hlen.trans_le hr.1⟩, hws⟩, rfl⟩
  · rintro ⟨ws, hws, rfl⟩
    induction bounds generalizing ws with
    | nil =>
      rw [Phrase.eq_nil_of_within_nil hws]
      exact .nil
    | cons b bs ih =>
      obtain ⟨w, ws, rfl, hw, hlen, hws⟩ := Phrase.exists_of_within_cons hws
      refine .cons ⟨?_, forall_mem_routine hw⟩ (ih ws hws)
      rwa [routine, List.length_map]

/-- The program at a valid cursor is admitted. -/
theorem Cursor.Valid.admits (hc : c.Valid) (hp : c.current? = some p) : c.space.Admits p := by
  obtain ⟨ws, hws, rfl⟩ := Option.map_eq_some_iff.1 hp
  exact admits_iff.2 ⟨ws, hc ws hws, rfl⟩

/-- **The programs at the indices below the size are the admitted ones.** -/
theorem exists_cursor_iff (hn : s.size < indexLimit) :
    (∃ i < s.size, (s.cursor i).current? = some p) ↔ s.Admits p := by
  rw [admits_iff]
  constructor
  · rintro ⟨i, hi, hp⟩
    obtain ⟨ws, hws, rfl⟩ := Option.map_eq_some_iff.1 hp
    exact ⟨ws, Phrase.within_of_unrank? (hi.trans hn) hws, rfl⟩
  · rintro ⟨ws, hws, rfl⟩
    have hlt := Phrase.rank_lt_count hws
    exact ⟨Phrase.rank s.radix s.bounds ws, hlt, current?_cursor_rank hws (hlt.trans hn)⟩

/-! ### Without repetitions -/

/-- The place of a slot's instruction among the letters of the space. A slot that no letter fills
has the place after all of them. -/
def place (s : Space) (slot : Slot) : Nat := (s.letters.map some).idxOf slot

/-- The phrase that spells a program: for each slot the place of its instruction. -/
def spelling (s : Space) (p : Program) : List (List Nat) := p.routines.map fun r ↦ r.map s.place

section Nodup

variable (hletters : s.letters.Nodup)
include hletters

theorem place_getElem?_letters {d : Nat} (hd : d < s.radix) : s.place s.letters[d]? = d := by
  have hd' : d < (s.letters.map some).length := by rwa [List.length_map]
  have hplace := (hletters.map fun _ _ ↦ Option.some.inj).idxOf_getElem d hd'
  rwa [List.getElem_map, ← List.getElem?_eq_getElem] at hplace

/-- **Without repeated letters, a program tells the phrase that spells it.** -/
theorem spelling_program {ws : List (List Nat)} (hws : Phrase.Within s.radix s.bounds ws) :
    s.spelling (s.program ws) = ws := by
  have hword : ∀ w ∈ ws, (s.routine w).map s.place = w := by
    intro w hw
    have hover := hws.over_of_mem hw
    rw [routine, List.map_map]
    have hplace : ∀ d ∈ w, s.place s.letters[d]? = d :=
      fun d hd ↦ place_getElem?_letters hletters (hover d hd)
    exact (List.map_congr_left hplace).trans w.map_id
  show (ws.map s.routine).map (fun r ↦ r.map s.place) = ws
  rw [List.map_map]
  exact (List.map_congr_left hword).trans ws.map_id

/-- The program at an index tells the index. -/
theorem cursor_injective {j : Nat} (hi : i < indexLimit) (hj : j < indexLimit)
    (hip : (s.cursor i).current? = some p) (hjp : (s.cursor j).current? = some p) : i = j := by
  obtain ⟨vs, hvs, rfl⟩ := Option.map_eq_some_iff.1 hip
  obtain ⟨ws, hws, heq⟩ := Option.map_eq_some_iff.1 hjp
  obtain rfl : vs = ws :=
    calc vs
      _ = s.spelling (s.program vs) :=
        (spelling_program hletters (Phrase.within_of_unrank? hi hvs)).symm
      _ = s.spelling (s.program ws) := congrArg s.spelling heq.symm
      _ = ws := spelling_program hletters (Phrase.within_of_unrank? hj hws)
  rw [← Phrase.rank_of_unrank? hi hvs, ← Phrase.rank_of_unrank? hj hws]

end Nodup

/-- **A cursor at the first index goes through the admitted programs, each of them once.** However
many more programs it is asked for, it gives these and then stands past the last one. -/
theorem take_cursor_zero (hs : s.size? = some n) (hletters : s.letters.Nodup) :
    ∃ l : List Program, (∀ m, n ≤ m → (s.cursor 0).take m = (l, s.cursor n)) ∧
      (s.cursor n).current? = none ∧ l.length = n ∧ l.Nodup ∧ ∀ p, p ∈ l ↔ s.Admits p := by
  obtain ⟨rfl, hn⟩ := size_of_size?_eq_some hs
  have hprogram : ∀ i, ∃ p, i < s.size → (s.cursor i).current? = some p := by
    intro i
    rcases hp : (s.cursor i).current? with - | p
    · refine ⟨⟨[]⟩, fun hi ↦ absurd ((current?_cursor_eq_none_iff (hi.trans hn)).1 hp) ?_⟩
      exact Nat.not_le.2 hi
    · exact ⟨p, fun _ ↦ rfl⟩
  choose f hf using hprogram
  have hlast := (current?_cursor_eq_none_iff hn).2 le_rfl
  refine ⟨(List.range s.size).map f, fun m hm ↦ ?_, hlast, ?_, ?_, fun p ↦ ?_⟩
  · obtain ⟨k, rfl⟩ := Nat.exists_eq_add_of_le hm
    rw [take_cursor hn hf (Nat.zero_add s.size) k, List.range_eq_range']
  · rw [List.length_map, List.length_range]
  · refine List.Nodup.map_on (fun i hi j hj heq ↦ ?_) List.nodup_range
    rw [List.mem_range] at hi hj
    exact cursor_injective hletters (hi.trans hn) (hj.trans hn) (heq ▸ hf i hi) (hf j hj)
  · rw [← exists_cursor_iff hn, List.mem_map]
    constructor
    · rintro ⟨i, hi, rfl⟩
      exact ⟨i, List.mem_range.1 hi, hf i (List.mem_range.1 hi)⟩
    · rintro ⟨i, hi, hp⟩
      exact ⟨i, List.mem_range.2 hi, Option.some.inj ((hf i hi).symm.trans hp)⟩

/-- Two routines of at most one slot, to be filled with moves only. -/
def moves : Space := ⟨[1, 1], [⟨.forward, none⟩]⟩

/-- There are four such programs. -/
theorem take_cursor_moves : moves.size? = some 4 ∧
    ∃ l : List Program, (∀ m, 4 ≤ m → (moves.cursor 0).take m = (l, moves.cursor 4)) ∧
      (moves.cursor 4).current? = none ∧ l.length = 4 ∧ l.Nodup ∧ ∀ p, p ∈ l ↔ moves.Admits p :=
  ⟨by decide, take_cursor_zero (by decide) (by decide)⟩

end Space

end TileRobot
