import TileRobot.Program.Repertoire
import TileRobot.Space.Phrase
/-!
# The space of programs

A space is given by a bound on the length of each routine and by the instructions to write with. Its
programs have one routine for each bound and no empty slots. They are in the order of the phrases
that spell them: the first routine changes fastest, shorter routines come before longer ones, and in
a routine the last slot changes fastest.

A cursor stands at a program of a space, or past the last one, and knows the index at which it
stands. It can be put at any index directly, or moved on program by program.

## Main statements

* `Cursor.Valid`, with `valid_cursor` and `Cursor.Valid.advance`: every cursor that can be reached
  spells its program with letters that exist and within the bounds.
* `Cursor.remaining_advance_lt`: moving on comes to an end, which gives an induction along the
  programs that are left (`Cursor.induction_advance`).
-/

namespace TileRobot

/-- Bounds on the lengths of routines, and the instructions to fill them with. -/
structure Space where
  /-- The greatest number of slots of each routine. -/
  bounds : List Nat
  /-- The instructions, in the order in which they are tried. -/
  letters : List Instruction

namespace Space

/-- The number of instructions to write with. -/
def radix (s : Space) : Nat := s.letters.length

/-- The number of ways to fill a routine of at most `bound` slots, if it is below the limit. -/
def routineCount? (s : Space) (bound : Nat) : Option Nat := Word.count? s.radix bound

/-- The number of programs. -/
def size (s : Space) : Nat := Phrase.count s.radix s.bounds

/-- The number of programs, if it is below the limit. -/
def size? (s : Space) : Option Nat := Phrase.count? s.radix s.bounds

theorem size?_eq (s : Space) : s.size? = belowLimit? s.size := Phrase.count?_eq _ _

/-- The routine that a word spells. A letter that does not exist spells an empty slot. -/
def routine (s : Space) (w : List Nat) : Routine := w.map fun d ↦ s.letters[d]?

/-- The program that a phrase spells. -/
def program (s : Space) (ws : List (List Nat)) : Program := ⟨ws.map s.routine⟩

/-- A letter over the alphabet of the space spells a filled slot. -/
theorem routine_eq_ofInstructions {s : Space} {w : List Nat} (h : Word.Over s.radix w) :
    ∃ l : List Instruction, s.routine w = Routine.ofInstructions l ∧ ∀ i ∈ l, i ∈ s.letters := by
  induction w with
  | nil => exact ⟨[], rfl, by simp⟩
  | cons d w ih =>
    obtain ⟨l, hl, hmem⟩ := ih fun e he ↦ h e (List.mem_cons_of_mem _ he)
    have hd : d < s.letters.length := h d (by simp)
    refine ⟨s.letters[d] :: l, ?_, ?_⟩
    · simp only [routine, List.map_cons, Routine.ofInstructions,
        List.getElem?_eq_getElem hd] at hl ⊢
      rw [hl]
    · intro i hi
      rcases List.mem_cons.1 hi with rfl | hi
      · exact List.getElem_mem hd
      · exact hmem i hi

/-- A place in a space: at one of its programs, or past the last one. -/
structure Cursor where
  /-- The space. -/
  space : Space
  /-- The index of the place. -/
  index : Nat
  /-- The phrase that spells the program at the place, if there is one. -/
  phrase? : Option (List (List Nat))

/-- The cursor at an index below the limit. -/
def cursor (s : Space) (index : Nat) : Cursor :=
  ⟨s, index, Phrase.unrank? s.radix s.bounds index⟩

namespace Cursor

/-- The program at the cursor, if there is one. -/
def current? (c : Cursor) : Option Program := c.phrase?.map c.space.program

/-- The cursor at the next place. Past the last program a cursor stays where it is. -/
def advance (c : Cursor) : Cursor :=
  match c.phrase? with
  | none => c
  | some ws =>
    { c with index := c.index + 1, phrase? := Phrase.next? c.space.radix c.space.bounds ws }

/-- The cursor `n` places on. -/
def advanceBy (c : Cursor) : Nat → Cursor
  | 0 => c
  | n + 1 => c.advance.advanceBy n

/-- The next `n` programs, or all that are left if there are fewer, and the cursor after them. -/
def take (c : Cursor) (n : Nat) : List Program × Cursor :=
  go #[] c n
where
  /-- Collects the programs onto those found so far. -/
  go (found : Array Program) (c : Cursor) : Nat → List Program × Cursor
    | 0 => (found.toList, c)
    | n + 1 =>
      match c.current? with
      | none => (found.toList, c)
      | some p => go (found.push p) c.advance n

/-- How many programs are left from the cursor on, if the number of all is below the limit. -/
def left? (c : Cursor) : Option Nat :=
  match c.phrase? with
  | none => some 0
  | some _ => c.space.size?.map (· - c.index)

theorem advance_of_phrase?_eq_none {c : Cursor} (h : c.phrase? = none) : c.advance = c := by
  simp [advance, h]

@[simp] theorem space_advance (c : Cursor) : c.advance.space = c.space := by
  simp only [advance]
  split <;> rfl

/-! ### Valid cursors -/

/-- A cursor is valid when the phrase at it, if there is one, is within the bounds of the space. -/
def Valid (c : Cursor) : Prop :=
  ∀ ws ∈ c.phrase?, Phrase.Within c.space.radix c.space.bounds ws

theorem Valid.advance {c : Cursor} (h : c.Valid) : c.advance.Valid := by
  cases hp : c.phrase? with
  | none =>
    rw [advance_of_phrase?_eq_none hp]
    exact h
  | some ws =>
    intro ws' hws'
    simp only [Cursor.advance, hp] at hws' ⊢
    exact Phrase.within_next? (h ws hp) hws'

/-- How many programs are left from a cursor on. -/
def remaining (c : Cursor) : Nat :=
  match c.phrase? with
  | none => 0
  | some ws => Phrase.remaining c.space.radix c.space.bounds ws

theorem remaining_advance_lt {c : Cursor} (h : c.Valid) (hp : c.phrase?.isSome) :
    c.advance.remaining < c.remaining := by
  obtain ⟨ws, hws⟩ := Option.isSome_iff_exists.1 hp
  have hwithin := h ws hws
  simp only [remaining, advance, hws]
  split
  · have hlt := Phrase.rank_lt_count hwithin
    simp only [Phrase.remaining]
    omega
  · rename_i ws' hnext
    exact Phrase.remaining_next?_lt hwithin hnext

/-- Every cursor comes to the end, so a property holds at all of them if it holds at each where it
holds at the next place, should there be one. -/
theorem induction_advance {motive : { c : Cursor // c.Valid } → Prop}
    (step : ∀ c, (c.1.current?.isSome → motive ⟨c.1.advance, c.2.advance⟩) → motive c)
    (c : { c : Cursor // c.Valid }) : motive c := by
  induction hleft : c.1.remaining using Nat.strongRecOn generalizing c with
  | ind left ih =>
    refine step c fun hc ↦ ?_
    rw [current?, Option.isSome_map] at hc
    exact ih _ (hleft ▸ remaining_advance_lt c.2 hc) _ rfl

end Cursor

theorem valid_cursor {s : Space} {index : Nat} (h : index < indexLimit) :
    (s.cursor index).Valid :=
  fun _ hws ↦ Phrase.within_of_unrank? h hws

end Space

end TileRobot
