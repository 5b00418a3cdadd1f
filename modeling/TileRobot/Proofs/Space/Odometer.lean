import Mathlib.Data.List.Induction
import TileRobot.Proofs.Space.Restart
import TileRobot.Proofs.Space.Unranking
import TileRobot.Proofs.Text.Parts

/-!
# Odometers keep in step

An odometer changes its digits and its program by separate writes, and only the program is read by
others. That the two belong together is shown by giving both at once: `Space.wheel` has the digits
of a word and the slots that they spell, `Space.spelled` does so for a phrase, and each write leads
from one such value to another. A step of a turn raises a digit or brings it back to zero
(`turn?_succ`), and when all of them are at zero the word grows or starts again (`turn?_zero`). So a
turn leads to the next word (`turn?_wheel`), and carrying to the next phrase (`carry?_spelled`).

So an odometer follows a cursor (`Odometer.Follows`). It does so where it is put, and each move
keeps it, as long as there is a place for the index. All that is known of cursors holds of odometers
then, and none of their checks fails.

* `Space.exists_odometer?_inStep`: wherever an odometer has come to, its digits and its program are
  in step.
-/

namespace TileRobot

/-! ### Places of lists -/

theorem successor?_of_lt {limit n : Nat} (hn : n + 1 < limit) : successor? limit n = some (n + 1) :=
  if_pos hn

theorem getElem?_append_cons_length {α : Type} (l : List α) (a : α) (m : List α) :
    (l ++ a :: m)[l.length]? = some a := by
  rw [List.getElem?_append_right le_rfl, Nat.sub_self, List.getElem?_cons_zero]

theorem set_append_cons_length {α : Type} (l : List α) (a b : α) (m : List α) :
    (l ++ a :: m).set l.length b = l ++ b :: m := by
  rw [List.set_append_right _ _ le_rfl, Nat.sub_self, List.set_cons_zero]

/-! ### Words and phrases -/

/-- The next word of one length, seen from its end: the last letter is raised, or it starts again
and the letters before it move on. -/
theorem Word.nextOfLength?_append_singleton (a : Nat) (w : List Nat) (d : Nat) :
    nextOfLength? a (w ++ [d]) =
      if d + 1 < a then some (w ++ [d + 1]) else (nextOfLength? a w).map (· ++ [0]) := by
  induction w with
  | nil => rfl
  | cons e w ih =>
    rw [List.cons_append, nextOfLength?, nextOfLength?, ih]
    by_cases hd : d + 1 < a
    · rw [if_pos hd, if_pos hd]
      rfl
    · rw [if_neg hd, if_neg hd]
      rcases nextOfLength? a w with - | v
      · by_cases he : e + 1 < a
        · simp only [Option.map_none, if_pos he, Option.map_some, List.length_append,
            List.length_singleton, List.replicate_succ', List.cons_append]
        · simp only [Option.map_none, if_neg he]
      · rfl

namespace Phrase

variable {a r : Nat} {bounds : List Nat} {ws : List (List Nat)}

theorem Within.length_eq (hws : Within a bounds ws) : ws.length = bounds.length := by
  induction bounds generalizing ws with
  | nil =>
    rw [eq_nil_of_within_nil hws]
    rfl
  | cons b bs ih =>
    obtain ⟨w, ws, rfl, -, -, hws⟩ := exists_of_within_cons hws
    rw [List.length_cons, List.length_cons, ih hws]

/-- Each word of a phrase is within its own bound. -/
theorem Within.of_getElem? {f b : Nat} {w : List Nat} (hws : Within a bounds ws)
    (hb : bounds[f]? = some b) (hw : ws[f]? = some w) : Word.Over a w ∧ w.length ≤ b := by
  induction bounds generalizing f ws with
  | nil => contradiction
  | cons b' bs ih =>
    obtain ⟨v, vs, rfl, hv, hlength, hvs⟩ := exists_of_within_cons hws
    rcases f with - | f
    · obtain rfl := Option.some.inj hb
      obtain rfl := Option.some.inj hw
      exact ⟨hv, hlength⟩
    · exact ih hvs hb hw

theorem within_replicate_nil (a : Nat) (bounds : List Nat) :
    Within a bounds (List.replicate bounds.length []) := by
  induction bounds with
  | nil => trivial
  | cons b bs ih => exact ⟨⟨nofun, Nat.zero_le b⟩, ih⟩

/-- **Seeking a phrase word by word finds the phrase of the rank**, and what is left of the rank.
The words over a single letter must have lengths that can be told, except those of rank zero. -/
theorem spell?_eq (hr : r < indexLimit)
    (hunary : 0 < r → a = 1 → ∀ b ∈ bounds, b < Word.lengthLimit) :
    spell? a bounds r = some (unrankFrom a bounds r) := by
  induction bounds generalizing r with
  | nil => rfl
  | cons b bs ih =>
    have hb : 0 < r → a = 1 → b < Word.lengthLimit := fun hpos h ↦
      hunary hpos h b List.mem_cons_self
    have hbs : 0 < r → a = 1 → ∀ b ∈ bs, b < Word.lengthLimit := fun hpos h b hmem ↦
      hunary hpos h b (List.mem_cons_of_mem _ hmem)
    rcases hcount : Word.count? a b with - | c
    · have hlarge : indexLimit ≤ Word.count a b := by
        rwa [Word.count?_eq, belowLimit?_eq_none_iff] at hcount
      have hzero : spell? a bs 0 = some (unrankFrom a bs 0) := ih (by decide) nofun
      simp only [spell?, share?, unrankFrom, hcount, Option.bind_eq_bind, Option.bind_some,
        Word.spell?_eq_of_lt_count hr (hr.trans_le hlarge) hb, hzero]
      rfl
    · obtain ⟨rfl, -⟩ := belowLimit?_eq_some_iff.1 ((Word.count?_eq a b).symm.trans hcount)
      have hpos := Word.count_pos a b
      have hpart : r % Word.count a b ≤ r := Nat.mod_le _ _
      have hrest : r / Word.count a b ≤ r := Nat.div_le_self _ _
      simp only [spell?, share?, unrankFrom, hcount, if_neg hpos.ne', Option.bind_eq_bind,
        Option.bind_some, ih (hrest.trans_lt hr) fun h ↦ hbs (h.trans_le hrest),
        Word.spell?_eq_of_lt_count (hpart.trans_lt hr) (Nat.mod_lt r hpos) fun h ↦
          hb (h.trans_le hpart)]
      rfl

end Phrase

namespace Space

variable {s : Space} {bound d i : Nat} {v w : List Nat} {vs ws : List (List Nat)} {done : Bool}

/-! ### Wheels -/

/-- The wheel with the digits of a word. -/
def wheel (s : Space) (w : List Nat) : Wheel := ⟨w, s.routine w⟩

/-- Writing the letter of a digit into its slot keeps slots and digits in step. -/
theorem put?_routine {e : Nat} {letter : Instruction} (hletter : s.letters[e]? = some letter) :
    put? (s.routine (w ++ d :: v)) w.length (some letter) = some (s.routine (w ++ e :: v)) := by
  have hplace : w.length < (s.routine (w ++ d :: v)).length := by
    rw [routine, List.length_map, List.length_append, List.length_cons]
    omega
  rw [put?, if_pos hplace, routine, routine, ← set_append_cons_length w d e v, List.map_set,
    hletter]

theorem exists_letter (hd : d < s.radix) : ∃ letter, s.letters[d]? = some letter :=
  ⟨s.letters.get ⟨d, hd⟩, List.getElem?_eq_getElem hd⟩

/-- A digit is raised, or it goes back to zero and the one before it is next. -/
theorem turn?_succ (hletters : s.radix < Text.limit64) (hd : d < s.radix) :
    Wheel.turn? s.letters bound (w.length + 1) (s.wheel (w ++ d :: v)) =
      if d + 1 < s.radix then some (s.wheel (w ++ (d + 1) :: v), true)
      else Wheel.turn? s.letters bound w.length (s.wheel (w ++ 0 :: v)) := by
  have hsuccessor := successor?_of_lt (lt_of_le_of_lt (Nat.succ_le_of_lt hd) hletters)
  rw [Wheel.turn?, wheel, getElem?_append_cons_length, Option.bind_eq_bind, Option.bind_some,
    hsuccessor]
  show (if d + 1 < s.radix then _ else _) = _
  by_cases hnext : d + 1 < s.radix
  · obtain ⟨letter, hletter⟩ := exists_letter hnext
    rw [if_pos hnext, if_pos hnext, hletter]
    simp only [Option.bind_eq_bind, Option.bind_some, put?_routine hletter, set_append_cons_length]
    rfl
  · obtain ⟨first, hfirst⟩ := exists_letter (Nat.zero_lt_of_lt hd)
    rw [if_neg hnext, if_neg hnext, hfirst]
    simp only [Option.bind_eq_bind, Option.bind_some, put?_routine hfirst, set_append_cons_length]
    rfl

/-- A wheel is turned to the next word of the same length, or all its digits come to zero. -/
theorem turn?_wheel_append (hletters : s.radix < Text.limit64) (bound : Nat)
    (hw : Word.Over s.radix w) (m : Nat) :
    Wheel.turn? s.letters bound w.length (s.wheel (w ++ List.replicate m 0)) =
      match Word.nextOfLength? s.radix w with
      | some v => some (s.wheel (v ++ List.replicate m 0), true)
      | none => Wheel.turn? s.letters bound 0 (s.wheel (List.replicate (w.length + m) 0)) := by
  induction w using List.reverseRecOn generalizing m with
  | nil =>
    rw [List.nil_append, List.length_nil, Nat.zero_add]
    rfl
  | append_singleton w d ih =>
    obtain ⟨hw, hd⟩ := List.forall_mem_append.1 hw
    have hd : d < s.radix := hd d (List.mem_singleton_self d)
    rw [List.length_append, List.length_singleton, List.append_assoc, List.singleton_append,
      turn?_succ hletters hd, Word.nextOfLength?_append_singleton]
    by_cases hnext : d + 1 < s.radix
    · simp only [if_pos hnext, List.append_assoc, List.singleton_append]
    · have hzero := ih hw (m + 1)
      rw [if_neg hnext, if_neg hnext, ← List.replicate_succ, hzero]
      rcases Word.nextOfLength? s.radix w with - | v
      · rw [Option.map_none, Nat.add_assoc, Nat.add_comm 1 m]
      · simp only [Option.map_some, List.append_assoc, List.singleton_append, List.replicate_succ]

/-- A wheel whose digits have all been used up grows, or starts again. -/
theorem turn?_zero (bound : Nat) (w : List Nat) :
    Wheel.turn? s.letters bound 0 (s.wheel w) =
      if w.length < bound ∧ 0 < s.radix then some (s.wheel (w ++ [0]), true)
      else some (s.wheel [], false) := by
  rw [Wheel.turn?]
  show (if w.length < bound ∧ 0 < s.radix then _ else _) = _
  by_cases hgrow : w.length < bound ∧ 0 < s.radix
  · obtain ⟨first, hfirst⟩ := exists_letter hgrow.2
    rw [if_pos hgrow, if_pos hgrow, hfirst]
    simp only [wheel, routine, List.map_append, List.map_singleton, hfirst]
    rfl
  · rw [if_neg hgrow, if_neg hgrow]
    rfl

/-- **A wheel is turned to the next word within its bound**, or back to the empty word with
something to carry. -/
theorem turn?_wheel (hletters : s.radix < Text.limit64) (bound : Nat) (hw : Word.Over s.radix w) :
    Wheel.turn? s.letters bound w.length (s.wheel w) =
      match Word.next? s.radix bound w with
      | some v => some (s.wheel v, true)
      | none => some (s.wheel [], false) := by
  have hturn := turn?_wheel_append hletters bound hw 0
  rw [List.replicate_zero, List.append_nil, Nat.add_zero] at hturn
  rw [hturn, Word.next?]
  rcases Word.nextOfLength? s.radix w with - | v
  · simp only [turn?_zero, List.length_replicate, List.replicate_succ']
    by_cases hgrow : w.length < bound ∧ 0 < s.radix
    · simp only [if_pos hgrow]
    · simp only [if_neg hgrow]
  · simp only [List.append_nil]

/-! ### Odometers -/

/-- The odometer with the digits of a phrase. -/
def spelled (s : Space) (ws : List (List Nat)) (i : Nat) (done : Bool) : Odometer :=
  ⟨ws, s.program ws, i, done⟩

theorem turn?_spelled (hletters : s.radix < Text.limit64)
    (hbound : s.bounds[vs.length]? = some bound) (hw : Word.Over s.radix w) :
    (s.spelled (vs ++ w :: ws) i done).turn? s vs.length =
      match Word.next? s.radix bound w with
      | some v => some (s.spelled (vs ++ v :: ws) i done, true)
      | none => some (s.spelled (vs ++ [] :: ws) i done, false) := by
  have hwheel := turn?_wheel hletters bound hw
  have hslots : ∀ v, ((vs ++ w :: ws).map s.routine).set vs.length (s.routine v) =
      (vs ++ v :: ws).map s.routine := fun v ↦ by
    rw [← List.map_set, set_append_cons_length]
  rw [wheel] at hwheel
  simp only [Odometer.turn?, spelled, program, hbound, List.getElem?_map,
    getElem?_append_cons_length, Option.map_some, Option.bind_eq_bind, Option.bind_some, hwheel]
  rcases Word.next? s.radix bound w with - | v
  · simp only [wheel, Option.bind_some, set_append_cons_length, hslots]
    rfl
  · simp only [wheel, Option.bind_some, set_append_cons_length, hslots]
    rfl

/-- **Carrying comes to the next phrase**, or past the last one if there is none. -/
theorem carry?_spelled (hletters : s.radix < Text.limit64) {as bs : List Nat}
    (hbounds : s.bounds = as ++ bs) (hlength : vs.length = as.length)
    (hws : Phrase.Within s.radix bs ws) :
    (s.spelled (vs ++ ws) i false).carry? s (List.range' vs.length ws.length) = some
      (match Phrase.next? s.radix bs ws with
      | some ws' => s.spelled (vs ++ ws') i false
      | none => s.spelled (vs ++ List.replicate ws.length []) i true) := by
  induction bs generalizing as vs ws with
  | nil =>
    rw [Phrase.eq_nil_of_within_nil hws]
    rfl
  | cons b bs ih =>
    obtain ⟨w, ws, rfl, hw, -, hws⟩ := Phrase.exists_of_within_cons hws
    have hbound : s.bounds[vs.length]? = some b := by
      rw [hbounds, hlength, getElem?_append_cons_length]
    rw [List.length_cons, List.range'_succ, Odometer.carry?, turn?_spelled hletters hbound hw,
      Phrase.next?]
    rcases Word.next? s.radix b w with - | v
    · -- the wheel has started again and belongs to those before the next one
      have hbounds' : s.bounds = (as ++ [b]) ++ bs := by rw [hbounds, ← List.append_cons]
      have hlength' : (vs ++ [[]]).length = (as ++ [b]).length := by
        rw [List.length_append, List.length_append, hlength]
        rfl
      have hcarry := ih hbounds' hlength' hws
      rw [List.length_append, List.length_singleton, ← List.append_cons] at hcarry
      show (s.spelled (vs ++ [] :: ws) i false).carry? s _ = _
      rw [hcarry]
      rcases Phrase.next? s.radix bs ws with - | ws'
      · simp only [Option.map_none, List.replicate_succ, ← List.append_cons]
      · simp only [Option.map_some, ← List.append_cons]
    · rfl

/-- An odometer is moved on to the next phrase. -/
theorem advance?_spelled (hletters : s.radix < Text.limit64) (hlimit : i + 1 < indexLimit)
    (hws : Phrase.Within s.radix s.bounds ws) :
    (s.spelled ws i false).advance? s = some
      (match Phrase.next? s.radix s.bounds ws with
      | some ws' => s.spelled ws' (i + 1) false
      | none => s.spelled (List.replicate ws.length []) (i + 1) true) := by
  have hcarry : (s.spelled ws (i + 1) false).carry? s (List.range' 0 ws.length) = _ :=
    carry?_spelled hletters (List.nil_append s.bounds).symm List.length_nil hws
  simp only [Odometer.advance?, spelled, Bool.false_eq_true, if_false, successor?_of_lt hlimit,
    Option.bind_eq_bind, Option.bind_some, List.range_eq_range']
  exact hcarry

/-! ### Following a cursor -/

/-- An odometer follows a cursor when it stands at the same index and has the digits of a phrase
together with the program that the phrase spells. It is the phrase at the cursor if there is one,
and otherwise the last program has been passed. -/
inductive Odometer.Follows (c : Cursor) : Odometer → Prop
  /-- Both are at a program. -/
  | here {ws : List (List Nat)} (hws : Phrase.Within c.space.radix c.space.bounds ws)
      (hphrase : c.phrase? = some ws) : Follows c (c.space.spelled ws c.index false)
  /-- The last program has been passed. -/
  | past {ws : List (List Nat)} (hws : Phrase.Within c.space.radix c.space.bounds ws)
      (hphrase : c.phrase? = none) : Follows c (c.space.spelled ws c.index true)

variable {o : Odometer} {c : Cursor} {k : Nat}

/-- **An odometer that follows a cursor can be moved on** as long as the index has a place, and
follows it still. -/
theorem Odometer.Follows.advance (ho : o.Follows c) (hletters : c.space.radix < Text.limit64)
    (hlimit : c.advance.index < indexLimit) :
    ∃ o', o.advance? c.space = some o' ∧ o'.Follows c.advance := by
  rcases ho with @⟨ws, hws, hphrase⟩ | @⟨ws, hws, hphrase⟩
  · have hadvance : c.advance = { c with
        index := c.index + 1, phrase? := Phrase.next? c.space.radix c.space.bounds ws } := by
      rw [Cursor.advance, hphrase]
    rw [hadvance] at hlimit ⊢
    refine ⟨_, advance?_spelled hletters hlimit hws, ?_⟩
    rcases hnext : Phrase.next? c.space.radix c.space.bounds ws with - | ws'
    · rw [hws.length_eq]
      exact .past (Phrase.within_replicate_nil _ _) rfl
    · exact .here (Phrase.within_next? hws hnext) rfl
  · rw [Cursor.advance_of_phrase?_eq_none hphrase]
    exact ⟨_, rfl, .past hws hphrase⟩

theorem Odometer.Follows.advanceBy (ho : o.Follows c) (hletters : c.space.radix < Text.limit64)
    (hlimit : (c.advanceBy k).index < indexLimit) :
    ∃ o', o.advanceBy? c.space k = some o' ∧ o'.Follows (c.advanceBy k) := by
  induction k generalizing o c with
  | zero => exact ⟨o, rfl, ho⟩
  | succ k ih =>
    rw [Cursor.advanceBy] at hlimit ⊢
    obtain ⟨o', hadvance, ho'⟩ :=
      ho.advance hletters ((Cursor.index_le_index_advanceBy _ k).trans_lt hlimit)
    rw [← Cursor.space_advance] at hletters
    obtain ⟨o'', hrest, ho''⟩ := ih ho' hletters hlimit
    rw [Cursor.space_advance] at hrest
    exact ⟨o'', by rw [Odometer.advanceBy?, hadvance, Option.bind_some, hrest], ho''⟩

/-! ### Starting -/

/-- The letters of a word are all found if it spells a routine without empty slots. -/
theorem mapM_letters_eq {l : List Instruction} (hl : s.routine w = Routine.ofInstructions l) :
    (w.mapM fun d ↦ s.letters[d]?) = some l := by
  have hforall : List.Forall₂ (· = ·) (s.routine w) (Routine.ofInstructions l) := by
    rw [List.forall₂_eq_eq_eq, hl]
  rw [routine, Routine.ofInstructions, List.forall₂_map_left_iff,
    List.forall₂_map_right_iff] at hforall
  exact Text.mapM_eq_some_iff.2 hforall

/-- The letters of a phrase are all found, and make up the program that it spells. -/
theorem exists_mapM_letters (hws : ∀ w ∈ ws, Word.Over s.radix w) :
    ∃ rows, (ws.mapM fun w ↦ w.mapM fun d ↦ s.letters[d]?) = some rows ∧
      ⟨rows.map Routine.ofInstructions⟩ = s.program ws := by
  induction ws with
  | nil => exact ⟨[], rfl, rfl⟩
  | cons w ws ih =>
    obtain ⟨hw, hws⟩ := List.forall_mem_cons.1 hws
    obtain ⟨l, hl, -⟩ := routine_eq_ofInstructions hw
    obtain ⟨rows, hrows, hprogram⟩ := ih hws
    refine ⟨l :: rows, ?_, ?_⟩
    · rw [List.mapM_cons, mapM_letters_eq hl, hrows]
      rfl
    · rw [program, Program.mk.injEq] at hprogram ⊢
      rw [List.map_cons, List.map_cons, hl, hprogram]

/-- **An odometer can be put at any index**: it has the digits of the phrase there, or of the one
that is left when the rank is divided past the last. -/
theorem odometer?_eq (hi : i < indexLimit)
    (hunary : 0 < i → s.radix = 1 → ∀ b ∈ s.bounds, b < Word.lengthLimit) :
    s.odometer? i = some (s.spelled (Phrase.unrankFrom s.radix s.bounds i).1 i
      (decide (0 < (Phrase.unrankFrom s.radix s.bounds i).2))) := by
  have hws : Phrase.Within s.radix s.bounds (Phrase.unrankFrom s.radix s.bounds i).1 :=
    Phrase.within_unrankFrom hi
  obtain ⟨rows, hrows, hprogram⟩ := exists_mapM_letters fun w hw ↦ hws.over_of_mem hw
  simp only [odometer?, Phrase.spell?_eq hi hunary, Option.bind_eq_bind, Option.bind_some, hrows,
    hprogram]
  rfl

/-- At any index an odometer follows the cursor there. -/
theorem exists_odometer?_follows (hi : i < indexLimit)
    (hunary : 0 < i → s.radix = 1 → ∀ b ∈ s.bounds, b < Word.lengthLimit) :
    ∃ o, s.odometer? i = some o ∧ o.Follows (s.cursor i) := by
  have hws : Phrase.Within s.radix s.bounds (Phrase.unrankFrom s.radix s.bounds i).1 :=
    Phrase.within_unrankFrom hi
  refine ⟨_, odometer?_eq hi hunary, ?_⟩
  rcases Nat.eq_zero_or_pos (Phrase.unrankFrom s.radix s.bounds i).2 with hleft | hleft
  · rw [decide_eq_false hleft.not_gt]
    exact .here hws (if_pos hleft)
  · rw [decide_eq_true hleft]
    exact .past hws (if_neg hleft.ne')

/-! ### Digits and slots -/

/-- A wheel is in step with letters and a bound when it has a slot for each digit, not more of them
than the bound allows, and in each slot the letter of the digit. -/
structure Wheel.InStep (letters : List Instruction) (bound : Nat) (w : Wheel) : Prop where
  /-- Each digit has a slot. -/
  length_slots : w.slots.length = w.digits.length
  /-- The routine is within its bound. -/
  length_le : w.digits.length ≤ bound
  /-- Each digit has a letter. -/
  lt_length : ∀ d ∈ w.digits, d < letters.length
  /-- The slot of a digit has its letter. -/
  slot : ∀ p d : Nat, w.digits[p]? = some d →
    ∃ letter, letters[d]? = some letter ∧ w.slots[p]? = some (some letter)

/-- An odometer is in step with a space when it has a wheel for each bound and all of them are. -/
structure Odometer.InStep (s : Space) (o : Odometer) : Prop where
  /-- Each bound has a list of digits. -/
  length_digits : o.digits.length = s.bounds.length
  /-- Each bound has a routine. -/
  size_program : o.program.size = s.bounds.length
  /-- The digits and the routine of a bound are in step. -/
  wheel : ∀ (f bound : Nat) (digits : List Nat) (slots : Routine), s.bounds[f]? = some bound →
    o.digits[f]? = some digits → o.program.routines[f]? = some slots →
      Wheel.InStep s.letters bound ⟨digits, slots⟩

theorem inStep_wheel (hw : Word.Over s.radix w) (hlength : w.length ≤ bound) :
    (s.wheel w).InStep s.letters bound where
  length_slots := List.length_map _
  length_le := hlength
  lt_length := hw
  slot p d hd := by
    obtain ⟨letter, hletter⟩ := exists_letter (hw d (List.mem_of_getElem? hd))
    refine ⟨letter, hletter, ?_⟩
    show (w.map fun d ↦ s.letters[d]?)[p]? = _
    rw [List.getElem?_map, show w[p]? = some d from hd, Option.map_some, hletter]

theorem inStep_spelled (hws : Phrase.Within s.radix s.bounds ws) :
    (s.spelled ws i done).InStep s where
  length_digits := hws.length_eq
  size_program := (List.length_map _).trans hws.length_eq
  wheel f bound digits slots hbound hdigits hslots := by
    have hspelled : (ws.map s.routine)[f]? = some slots := hslots
    rw [List.getElem?_map, show ws[f]? = some digits from hdigits, Option.map_some] at hspelled
    obtain rfl := Option.some.inj hspelled
    obtain ⟨hover, hlength⟩ := hws.of_getElem? hbound hdigits
    exact inStep_wheel hover hlength

theorem Odometer.Follows.inStep (ho : o.Follows c) : o.InStep c.space := by
  rcases ho with @⟨ws, hws, -⟩ | @⟨ws, hws, -⟩
  · exact inStep_spelled hws
  · exact inStep_spelled hws

theorem Odometer.Follows.index_eq (ho : o.Follows c) : o.index = c.index := by
  rcases ho with - | -
  · rfl
  · rfl

theorem Odometer.Follows.current?_eq (ho : o.Follows c) : o.current? = c.current? := by
  rcases ho with @⟨ws, -, hphrase⟩ | @⟨ws, -, hphrase⟩
  · rw [Cursor.current?, hphrase]
    rfl
  · rw [Cursor.current?, hphrase]
    rfl

/-- **No number of an odometer outgrows its place**, nothing is divided by zero, and no list is read
where it has no place, as long as there is an index to stand at. After any number of moves from any
index the digits and the slots are in step, and the program is the one that a cursor comes to, which
counts its indices without a limit. Only an odometer that is put at a later index than the first
needs words over a single letter to have lengths that can be told. -/
theorem exists_odometer?_inStep (hletters : s.radix < 2 ^ 64)
    (hunary : 0 < i → s.radix = 1 → ∀ b ∈ s.bounds, b < 2 ^ 32) (hi : i < 2 ^ 128)
    (hk : ((s.cursor i).advanceBy k).index < 2 ^ 128) :
    ∃ o, (s.odometer? i).bind (·.advanceBy? s k) = some o ∧
      o.index = ((s.cursor i).advanceBy k).index ∧
      o.current? = ((s.cursor i).advanceBy k).current? ∧ o.InStep s := by
  rw [← indexLimit_eq] at hi hk
  obtain ⟨start, hstart, hfollows⟩ := exists_odometer?_follows hi hunary
  obtain ⟨o, ho, hfollows⟩ := hfollows.advanceBy hletters hk
  have hspace : ((s.cursor i).advanceBy k).space = s := Cursor.space_advanceBy _ k
  exact ⟨o, by rw [hstart, Option.bind_some]; exact ho, hfollows.index_eq, hfollows.current?_eq,
    hspace ▸ hfollows.inStep⟩

/-- Five places on to the last of all indices, in a space that reaches beyond it. The first routine
starts again twice on the way. -/
theorem exists_odometer?_inStep_walks : walks.radix < 2 ^ 64 ∧
    (0 < 2 ^ 128 - 6 → walks.radix = 1 → ∀ b ∈ walks.bounds, b < 2 ^ 32) ∧
    2 ^ 128 - 6 < 2 ^ 128 ∧
    ((walks.cursor (2 ^ 128 - 6)).advanceBy 5).index < 2 ^ 128 ∧
    ∃ o, (walks.odometer? (2 ^ 128 - 6)).bind (·.advanceBy? walks 5) = some o ∧
      o.index = 2 ^ 128 - 1 ∧ o.current? = (walks.cursor (2 ^ 128 - 1)).current? ∧
      o.InStep walks := by
  have hletters : walks.radix < 2 ^ 64 := by decide
  have hunary : 0 < 2 ^ 128 - 6 → walks.radix = 1 → ∀ b ∈ walks.bounds, b < 2 ^ 32 := by decide
  have hi : 2 ^ 128 - 6 < 2 ^ 128 := by decide
  have hlast : (walks.cursor (2 ^ 128 - 6)).advanceBy 5 = walks.cursor (2 ^ 128 - 1) :=
    advanceBy_cursor_eq_cursor (by decide) (by rw [size?_walks]; exact nofun)
  have hk : ((walks.cursor (2 ^ 128 - 6)).advanceBy 5).index < 2 ^ 128 := by
    rw [hlast]
    decide
  obtain ⟨o, ho, hindex, hcurrent, hstep⟩ := exists_odometer?_inStep hletters hunary hi hk
  rw [hlast] at hindex hcurrent
  exact ⟨hletters, hunary, hi, hk, o, ho, hindex, hcurrent, hstep⟩

end Space

end TileRobot
