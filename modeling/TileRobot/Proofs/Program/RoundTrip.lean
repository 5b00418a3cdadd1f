import Mathlib.Data.Bool.AllAny
import TileRobot.Program.Parser
import TileRobot.Program.Printer
import TileRobot.Proofs.Text.Parts

/-!
# Reading what was written

The written form of a program is read as the program again (`Program.read_render`). The proof goes
up from operations to programs, and at each step the separator that is cut at is in none of the
parts. That rests on one fact about the parts of a routine: all characters of a written slot are
marks (`Slot.forall_isMark_render`), and neither blanks nor commas, plus signs and square brackets
are marks.

Two kinds of programs are not read again. One is the program without routines, whose text is empty.
The others call a routine whose number has no place in 64 bits, which no program does that was read
(`Program.numbered_of_read`). So `Program.read_render_iff` says exactly which programs are read
again.
-/

namespace TileRobot

open Text (Solid digits isBlank limit64)

/-! ### The characters of written slots -/

/-- A mark is a visible character that neither separates nor encloses the parts of a program, and
that stands for itself in a quoted text. -/
def isMark (c : Char) : Bool :=
  0x21 ≤ c.toNat && c.toNat < 0x7F && !([',', '+', '[', ']', '\x22', '\\'].contains c)

theorem ne_of_isMark {c d : Char} (hc : isMark c = true) (hd : isMark d = false) : c ≠ d :=
  fun h ↦ Bool.noConfusion ((h ▸ hc).symm.trans hd)

theorem toNat_of_isMark {c : Char} (hc : isMark c = true) : 0x21 ≤ c.toNat ∧ c.toNat < 0x7F := by
  simp only [isMark, Bool.and_eq_true, decide_eq_true_eq] at hc
  exact hc.1

theorem isBlank_of_isMark {c : Char} (hc : isMark c = true) : isBlank c = false := by
  have hrange := toNat_of_isMark hc
  simp only [isBlank, Text.blankRanges, List.any_cons, List.any_nil, Bool.or_eq_false_iff,
    Bool.and_eq_false_iff, decide_eq_false_iff_not, and_true]
  omega

theorem isMark_of_isDigit {c : Char} (hc : c.isDigit = true) : isMark c = true := by
  have hrange : 48 ≤ c.toNat ∧ c.toNat ≤ 57 := by
    simpa [Char.isDigit, UInt32.le_iff_toNat_le] using hc
  have hnot : c ∉ [',', '+', '[', ']', '\x22', '\\'] := fun hmem ↦ by
    simp only [List.mem_cons, List.not_mem_nil, or_false] at hmem
    rcases hmem with rfl | rfl | rfl | rfl | rfl | rfl <;> exact absurd hrange (by decide)
  simp only [isMark, List.contains_eq_mem, decide_eq_false hnot, Bool.and_eq_true,
    decide_eq_true_eq, Bool.not_false, and_true]
  omega

theorem isMark_of_mem_digits {n : Nat} {c : Char} (hc : c ∈ digits n) : isMark c = true :=
  isMark_of_isDigit (Text.isDigit_of_mem_digits hc)

/-- The number of a routine as a call writes it. -/
theorem toList_F_append (n : Nat) : ("F" ++ toString n).toList = 'F' :: digits n := by
  rw [String.toList_append]
  exact congrArg ('F' :: ·) Nat.toList_repr

namespace Color

theorem toList_render (c : Color) : c.render.toList = [c.letter] := by
  cases c <;> rfl

theorem read_render (c : Color) : Color.read c.render.toList = .ok c := by
  cases c <;> rfl

end Color

namespace Operation

/-- A written operation begins neither like a guard nor like an empty slot. -/
theorem exists_render_eq_cons (o : Operation) :
    ∃ c s, o.render.toList = c :: s ∧ c ≠ '(' ∧ c ≠ '_' := by
  rcases o with - | - | - | color | target
  · exact ⟨_, _, rfl, by decide, by decide⟩
  · exact ⟨_, _, rfl, by decide, by decide⟩
  · exact ⟨_, _, rfl, by decide, by decide⟩
  · exact ⟨'T', _, String.toList_append, by decide, by decide⟩
  · exact ⟨'F', _, toList_F_append _, by decide, by decide⟩

theorem forall_isMark_render (o : Operation) : ∀ c ∈ o.render.toList, isMark c = true := by
  rcases o with - | - | - | color | target
  · exact List.all_eq_true.1 rfl
  · exact List.all_eq_true.1 rfl
  · exact List.all_eq_true.1 rfl
  · cases color <;> exact List.all_eq_true.1 rfl
  · intro c hc
    rw [render, toList_F_append] at hc
    rcases List.mem_cons.1 hc with rfl | hc
    · decide
    · exact isMark_of_mem_digits hc

/-- **A written operation is read again.** -/
theorem read_render {o : Operation} (ho : ∀ t, o = .call t → t + 1 < limit64) (whole : List Char) :
    Operation.read whole o.render.toList = .ok o := by
  rcases o with - | - | - | color | target
  · rfl
  · rfl
  · rfl
  · cases color <;> rfl
  · have hnumber := Text.readNat?_digits (ho target rfl)
    rw [render, routineNumber_of_lt (ho target rfl), toList_F_append]
    unfold Operation.read
    simp [hnumber]

/-- An operation that has been read calls a routine, if it does, whose number has a place. -/
theorem lt_of_read_eq_call {whole s : List Char} {t : Nat}
    (hread : Operation.read whole s = .ok (.call t)) : t + 1 < limit64 := by
  unfold Operation.read at hread
  split at hread
  · cases hread
  split at hread
  · cases hread
  split at hread
  · cases hread
  split at hread
  · obtain ⟨_, -, hpaint⟩ := Text.map_eq_ok_iff.1 hread
    cases hpaint
  · split at hread
    · rename_i u hnumber
      obtain rfl : u = t := Operation.call.inj (Except.ok.inj hread)
      exact of_decide_eq_true (Option.filter_eq_some_iff.1 hnumber).2
    · contradiction
  · contradiction

end Operation

namespace Instruction

variable {i : Instruction}

/-- If an instruction calls a routine, its number has a place in 64 bits. -/
def Numbered (i : Instruction) : Prop := ∀ t ∈ i.target?, t + 1 < limit64

theorem toList_render_of_eq_some {c : Color} (hc : i.guard = some c) :
    i.render.toList = '(' :: ([c.letter] ++ [')', '|'] ++ i.operation.render.toList) := by
  rw [render, hc]
  simp only [String.toList_append, c.toList_render]
  rfl

theorem toList_render_of_eq_none (hnone : i.guard = none) :
    i.render.toList = i.operation.render.toList := by
  rw [render, hnone]

theorem forall_isMark_render (i : Instruction) : ∀ c ∈ i.render.toList, isMark c = true := by
  rcases hguard : i.guard with - | color
  · rw [toList_render_of_eq_none hguard]
    exact i.operation.forall_isMark_render
  · rw [toList_render_of_eq_some hguard]
    intro c hc
    simp only [List.mem_cons, List.mem_append, List.not_mem_nil, or_false] at hc
    rcases hc with rfl | (rfl | rfl | rfl) | hc
    · decide
    · cases color <;> decide
    · decide
    · decide
    · exact i.operation.forall_isMark_render c hc

/-- A written instruction does not begin like an empty slot. -/
theorem exists_render_eq_cons (i : Instruction) : ∃ c s, i.render.toList = c :: s ∧ c ≠ '_' := by
  rcases hguard : i.guard with - | color
  · obtain ⟨c, s, hs, -, hne⟩ := i.operation.exists_render_eq_cons
    exact ⟨c, s, (toList_render_of_eq_none hguard).trans hs, hne⟩
  · exact ⟨'(', _, toList_render_of_eq_some hguard, by decide⟩

/-- A written instruction falls into the texts of its guard and its operation. -/
theorem splitGuard_render (i : Instruction) : splitGuard i.render.toList =
    (i.guard.map fun c ↦ c.render.toList, i.operation.render.toList) := by
  rcases hguard : i.guard with - | color
  · obtain ⟨c, s, hs, hne, -⟩ := i.operation.exists_render_eq_cons
    rw [toList_render_of_eq_none hguard, hs, splitGuard]
    · rfl
    · exact fun inside h ↦ hne (List.cons.inj h).1
  · have hcut : Text.cut? [')', '|'] ([color.letter] ++ [')', '|'] ++ i.operation.render.toList) =
        some ([color.letter], i.operation.render.toList) :=
      Text.cut?_append (x := ')') (by decide) (by cases color <;> decide) _
    rw [toList_render_of_eq_some hguard]
    simp only [splitGuard, hcut, Option.map_some, color.toList_render]

/-- **A written instruction is read again.** -/
theorem read_render (hi : i.Numbered) : Instruction.read i.render.toList = .ok i := by
  have hguard : (i.guard.map fun c ↦ c.render.toList).mapM Color.read = .ok i.guard := by
    rcases i.guard with - | color
    · rfl
    · show (some <$> Color.read color.render.toList : Except SyntaxFault _) = .ok (some color)
      rw [color.read_render]
      rfl
  have hoperation := Operation.read_render (o := i.operation)
    (fun t ht ↦ hi t (target?_eq_some_iff.2 ht)) i.render.toList
  obtain ⟨c, s, hs, -⟩ := i.exists_render_eq_cons
  have hsolid : Solid i.render.toList :=
    Text.solid_of_forall (hs ▸ List.cons_ne_nil c s) fun x hx ↦
      isBlank_of_isMark (i.forall_isMark_render x hx)
  rw [Instruction.read, hsolid.trim_eq]
  simp only [splitGuard_render, hguard, hoperation]
  rfl

theorem numbered_of_read {s : List Char} (hread : Instruction.read s = .ok i) : i.Numbered := by
  simp only [Instruction.read, Text.bind_eq_ok_iff] at hread
  obtain ⟨guard, -, operation, ho, hi⟩ := hread
  obtain rfl := Except.ok.inj hi
  intro t ht
  obtain rfl : operation = .call t := target?_eq_some_iff.1 ht
  exact Operation.lt_of_read_eq_call ho

end Instruction

namespace Slot

/-- If the instruction in a slot calls a routine, its number has a place in 64 bits. -/
def Numbered (slot : Slot) : Prop := ∀ i ∈ slot, i.Numbered

theorem forall_isMark_render (slot : Slot) : ∀ c ∈ slot.render.toList, isMark c = true := by
  rcases slot with - | i
  · exact List.all_eq_true.1 rfl
  · exact i.forall_isMark_render

theorem render_ne_nil (slot : Slot) : slot.render.toList ≠ [] := by
  rcases slot with - | i
  · decide
  · obtain ⟨c, s, hs, -⟩ := i.exists_render_eq_cons
    exact hs ▸ List.cons_ne_nil c s

theorem solid_render (slot : Slot) : Solid slot.render.toList :=
  Text.solid_of_forall slot.render_ne_nil fun c hc ↦
    isBlank_of_isMark (slot.forall_isMark_render c hc)

/-- **A written slot is read again**, also with blanks before it. -/
theorem read_render {slot : Slot} (hslot : slot.Numbered) {before : List Char}
    (hbefore : ∀ c ∈ before, isBlank c = true) :
    Slot.read (before ++ slot.render.toList) = .ok slot := by
  have htrim := Text.trim_append_append hbefore (List.forall_mem_nil _) slot.solid_render
  rw [List.append_nil] at htrim
  rw [Slot.read, htrim]
  rcases slot with - | i
  · rfl
  · obtain ⟨c, s, hs, hne⟩ := i.exists_render_eq_cons
    have hfilled : i.render.toList ≠ ['_'] := fun h ↦ hne (List.cons.inj (hs.symm.trans h)).1
    simp only [render, if_neg hfilled, Instruction.read_render (hslot i rfl)]
    rfl

theorem numbered_of_read {s : List Char} {slot : Slot} (hread : Slot.read s = .ok slot) :
    slot.Numbered := by
  simp only [Slot.read] at hread
  split at hread
  · obtain rfl := Except.ok.inj hread
    exact nofun
  · obtain ⟨i, hi, rfl⟩ := Text.map_eq_ok_iff.1 hread
    exact fun _ h ↦ Option.some.inj h ▸ Instruction.numbered_of_read hi

end Slot

/-! ### Routines -/

namespace Routine

variable {r : Routine} {slot : Slot}

theorem unbracket?_append (inside : List Char) :
    unbracket? ('[' :: (inside ++ [']'])) = some inside := by
  simp only [unbracket?, List.getLast?_concat, if_true, List.dropLast_concat]

theorem solid_bracketed (inside : List Char) : Solid ('[' :: (inside ++ [']'])) where
  head := ⟨'[', rfl, by decide⟩
  last := ⟨']', by rw [← List.cons_append, List.getLast?_concat]; rfl, by decide⟩

/-- The written slots of a routine, with commas and blanks between them. -/
def body (r : Routine) : List Char := [',', ' '].intercalate (r.map fun slot ↦ slot.render.toList)

theorem toList_render (hr : r ≠ []) :
    r.render.toList = '[' :: ([' '] ++ r.body ++ [' '] ++ [']']) := by
  rw [render, if_neg (by simpa using hr)]
  simp only [String.toList_append, String.toList_intercalate, List.map_map, List.append_assoc]
  rfl

theorem solid_body (hr : r ≠ []) : Solid r.body := by
  refine Text.solid_intercalate (mt List.map_eq_nil_iff.1 hr) fun s hs ↦ ?_
  obtain ⟨slot, -, rfl⟩ := List.mem_map.1 hs
  exact slot.solid_render

/-- At the commas a body falls into the written slots, and all but the first have a blank before
them. -/
theorem splitOn_body (slot : Slot) (r : Routine) : (body (slot :: r)).splitOn ',' =
    slot.render.toList :: r.map fun t ↦ [' '] ++ t.render.toList := by
  have hcomma : ∀ t : Slot, ',' ∉ t.render.toList := fun t hmem ↦
    ne_of_isMark (t.forall_isMark_render _ hmem) (d := ',') (by decide) rfl
  show (([','] ++ [' ']).intercalate ((slot :: r).map fun t ↦ t.render.toList)).splitOn ',' = _
  rw [List.map_cons, Text.intercalate_append, List.map_map]
  refine List.splitOn_intercalate _ (List.forall_mem_cons.2 ⟨hcomma slot, ?_⟩)
    (List.cons_ne_nil _ _)
  intro s hs hmem
  obtain ⟨t, -, rfl⟩ := List.mem_map.1 hs
  rcases List.mem_cons.1 hmem with h | hmem
  · exact absurd h (by decide)
  · exact hcomma t hmem

/-- **A written routine is read again.** -/
theorem read_render (hr : ∀ slot ∈ r, Slot.Numbered slot) :
    Routine.read r.render.toList = .ok r := by
  rcases r with - | ⟨slot, r⟩
  · rfl
  · have hbody := solid_body (List.cons_ne_nil slot r)
    have htrim : Text.trim ([' '] ++ body (slot :: r) ++ [' ']) = body (slot :: r) :=
      Text.trim_append_append (List.all_eq_true.1 rfl) (List.all_eq_true.1 rfl) hbody
    have hslots : ((body (slot :: r)).splitOn ',').mapM Slot.read = .ok (slot :: r) := by
      obtain ⟨hslot, hrest⟩ := List.forall_mem_cons.1 hr
      rw [splitOn_body, Text.mapM_eq_ok_iff, List.forall₂_cons, List.forall₂_map_left_iff,
        List.forall₂_same]
      exact ⟨Slot.read_render hslot (List.forall_mem_nil _),
        fun t ht ↦ Slot.read_render (hrest t ht) (List.all_eq_true.1 rfl)⟩
    rw [toList_render (List.cons_ne_nil slot r), Routine.read, (solid_bracketed _).trim_eq]
    simp only [unbracket?_append, htrim]
    rw [if_neg (by simpa using hbody.ne_nil), hslots]

/-- The characters of a written routine. -/
theorem forall_mem_render (r : Routine) :
    ∀ c ∈ r.render.toList, isMark c = true ∨ c ∈ [' ', ',', '[', ']'] := by
  rcases r with - | ⟨slot, r⟩
  · exact List.all_iff_forall_prop.1 rfl
  · have hbody : ∀ c ∈ body (slot :: r), isMark c = true ∨ c ∈ [' ', ',', '[', ']'] := by
      refine Text.forall_mem_intercalate (List.all_iff_forall_prop.1 rfl) fun s hs c hc ↦ ?_
      obtain ⟨t, -, rfl⟩ := List.mem_map.1 hs
      exact Or.inl (t.forall_isMark_render c hc)
    intro c hc
    rw [toList_render (List.cons_ne_nil slot r)] at hc
    simp only [List.mem_cons, List.mem_append, List.not_mem_nil, or_false] at hc
    rcases hc with rfl | ((rfl | hc) | rfl) | rfl
    · decide
    · decide
    · exact hbody c hc
    · decide
    · decide

theorem numbered_of_read {s : List Char} (hread : Routine.read s = .ok r) :
    ∀ slot ∈ r, Slot.Numbered slot := by
  simp only [Routine.read] at hread
  split at hread
  · cases hread
  · split at hread
    · obtain rfl := Except.ok.inj hread
      exact nofun
    · exact Text.forall_of_mapM_eq_ok (fun _ _ ↦ Slot.numbered_of_read) hread

end Routine

/-! ### Programs -/

namespace Program

variable {p : Program}

/-- All routines that a program calls have numbers with a place in 64 bits. -/
def Numbered (p : Program) : Prop :=
  ∀ r ∈ p.routines, ∀ i ∈ Routine.instructions r, i.Numbered

theorem numbered_iff : p.Numbered ↔ ∀ r ∈ p.routines, ∀ slot ∈ r, Slot.Numbered slot := by
  refine forall₂_congr fun r _ ↦ ⟨fun h slot hslot i hi ↦ ?_, fun h i hi ↦ ?_⟩
  · exact h i (Routine.mem_instructions.2 (hi ▸ hslot))
  · exact h (some i) (Routine.mem_instructions.1 hi) i rfl

theorem toList_render (p : Program) : p.render.toList =
    [' ', '+', ' '].intercalate (p.routines.map fun r ↦ r.render.toList) := by
  rw [render, String.toList_intercalate, List.map_map]
  rfl

/-- At the separators a written program falls into the written routines. -/
theorem pieces_render (hp : p.routines ≠ []) :
    Text.pieces [' ', '+', ' '] p.render.toList = p.routines.map fun r ↦ r.render.toList := by
  rw [toList_render]
  refine Text.pieces_intercalate _ (x := '+') (by decide) (fun s hs hmem ↦ ?_)
    (mt List.map_eq_nil_iff.1 hp)
  obtain ⟨r, -, rfl⟩ := List.mem_map.1 hs
  exact absurd (r.forall_mem_render '+' hmem) (by decide)

/-- The characters of a written program. -/
theorem forall_mem_render (p : Program) :
    ∀ c ∈ p.render.toList, isMark c = true ∨ c ∈ [' ', ',', '[', ']', '+'] := by
  rw [toList_render]
  refine Text.forall_mem_intercalate (List.all_iff_forall_prop.1 rfl) fun s hs c hc ↦ ?_
  obtain ⟨r, -, rfl⟩ := List.mem_map.1 hs
  exact (r.forall_mem_render c hc).imp_right fun h ↦ List.mem_append_left ['+'] h

/-- **A written program is read again.** -/
theorem read_render (hp : p.routines ≠ []) (hnumbered : p.Numbered) :
    Program.read p.render = .ok p := by
  have hroutines : (p.routines.map fun r ↦ r.render.toList).mapM Routine.read = .ok p.routines := by
    rw [Text.mapM_eq_ok_iff, List.forall₂_map_left_iff, List.forall₂_same]
    exact fun r hr ↦ Routine.read_render (numbered_iff.1 hnumbered r hr)
  rw [Program.read, pieces_render hp, hroutines]
  rfl

/-- The routines of a program that has been read are those of the pieces of its text. -/
theorem mapM_pieces_of_read {text : String} (hread : Program.read text = .ok p) :
    (Text.pieces [' ', '+', ' '] text.toList).mapM Routine.read = .ok p.routines := by
  obtain ⟨routines, hroutines, hp⟩ := Text.bind_eq_ok_iff.1 hread
  obtain rfl := Except.ok.inj hp
  exact hroutines

theorem routines_ne_nil_of_read {text : String} (hread : Program.read text = .ok p) :
    p.routines ≠ [] := by
  intro hnil
  have hparts := Text.mapM_eq_ok_iff.1 (mapM_pieces_of_read hread)
  rw [hnil, List.forall₂_nil_right_iff] at hparts
  exact Text.pieces_ne_nil _ _ _ hparts

theorem numbered_of_read {text : String} (hread : Program.read text = .ok p) : p.Numbered :=
  numbered_iff.2
    (Text.forall_of_mapM_eq_ok (fun _ _ ↦ Routine.numbered_of_read) (mapM_pieces_of_read hread))

/-- **A program is read from its written form again** exactly if it has a routine and all the
routines that it calls have numbers with a place in 64 bits. -/
theorem read_render_iff (p : Program) :
    Program.read p.render = .ok p ↔ p.routines ≠ [] ∧ p.Numbered :=
  ⟨fun hread ↦ ⟨routines_ne_nil_of_read hread, numbered_of_read hread⟩,
    fun ⟨hp, hnumbered⟩ ↦ read_render hp hnumbered⟩

end Program

end TileRobot
