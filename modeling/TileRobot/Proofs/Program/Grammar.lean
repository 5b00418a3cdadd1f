import Mathlib.Data.List.Chain
import TileRobot.Proofs.Program.RoundTrip

/-!
# The grammar of programs

Which texts are programs, said by a grammar that does not mention how they are read. Its rules are
the constructors of the relations `Written`, each of which relates a text to what it stands for. The
grammar allows more than what is printed: blanks around the parts of a program, zeros and a plus
sign before a number.

A text that is no program has a fault (`Program.Fault`): it is cut at the separator of routines, and
the first part that is no routine is at fault. If that part stands in square brackets, its first
part between commas that is no slot is at fault, and in that a color that is none goes before
everything else (`Slot.BadColor`).

Where such a text is cut is settled by two facts about the characters of written texts: a written
slot has no blanks and no commas (`Slot.Written.forall_isMark`), and in a written routine no plus
sign follows a space (`Routine.Written.separable`), though a number may begin with one.
-/

namespace TileRobot

open Text (Blanks Solid limit64 trim)

/-! ### Numerals -/

namespace Text

/-- One or more decimal digits, and the number that they stand for. -/
inductive Digits : List Char → Nat → Prop
  | single {c : Char} (hc : c.isDigit = true) : Digits [c] (c.toNat - '0'.toNat)
  | snoc {s : List Char} {n : Nat} {c : Char} (hs : Digits s n) (hc : c.isDigit = true) :
      Digits (s ++ [c]) (10 * n + (c.toNat - '0'.toNat))

/-- Digits after a plus sign or after none, and the number that they stand for. -/
inductive Numeral : List Char → Nat → Prop
  | plain {s : List Char} {n : Nat} (hs : Digits s n) : Numeral s n
  | signed {s : List Char} {n : Nat} (hs : Digits s n) : Numeral ('+' :: s) n

variable {s : List Char} {n : Nat}

theorem Digits.forall_isDigit (hs : Digits s n) : ∀ c ∈ s, c.isDigit = true := by
  induction hs with
  | single hc => exact List.forall_mem_singleton.2 hc
  | snoc _ hc ih => exact List.forall_mem_append.2 ⟨ih, List.forall_mem_singleton.2 hc⟩

theorem Digits.ne_nil (hs : Digits s n) : s ≠ [] := by
  cases hs with
  | single => exact List.cons_ne_nil _ _
  | snoc => exact List.append_ne_nil_of_right_ne_nil _ (List.cons_ne_nil _ _)

end Text

/-! ### The rules -/

/-- An operation and its text. The number of a routine has a place in 64 bits. -/
inductive Operation.Written : List Char → Operation → Prop
  | forward : Written "forward".toList .forward
  | left : Written "left".toList .left
  | right : Written "right".toList .right
  | paint (c : Color) : Written ("TO:".toList ++ [c.letter]) (.paint c)
  | call {s : List Char} {t : Nat} (hs : Text.Numeral s (t + 1)) (ht : t + 1 < limit64) :
      Written ('F' :: s) (.call t)

/-- An instruction and its text: that of its operation, after its guard if it has one. -/
inductive Instruction.Written : List Char → Instruction → Prop
  | unguarded {s : List Char} {o : Operation} (hs : o.Written s) : Written s ⟨o, none⟩
  | guarded {s : List Char} {o : Operation} (c : Color) (hs : o.Written s) :
      Written ('(' :: ([c.letter] ++ [')', '|'] ++ s)) ⟨o, some c⟩

/-- A slot and its text. -/
inductive Slot.Written : List Char → Slot → Prop
  | empty : Written ['_'] none
  | filled {s : List Char} {i : Instruction} (hs : i.Written s) : Written s (some i)

/-- One or more slots and their text, which has commas among blanks between the slots. -/
inductive Routine.Row : List Char → Routine → Prop
  | one {s : List Char} {slot : Slot} (hs : Slot.Written s slot) : Row s [slot]
  | more {s before after t : List Char} {slot : Slot} {r : Routine} (hs : Slot.Written s slot)
      (hbefore : Blanks before) (hafter : Blanks after) (ht : Row t r) :
      Row (s ++ before ++ [','] ++ after ++ t) (slot :: r)

/-- A routine and its text: a row of slots or nothing, in square brackets, with blanks on both sides
of each bracket. -/
inductive Routine.Written : List Char → Routine → Prop
  | empty {lead inside trail : List Char} (hlead : Blanks lead) (hinside : Blanks inside)
      (htrail : Blanks trail) : Written (lead ++ '[' :: (inside ++ [']']) ++ trail) []
  | row {lead before s after trail : List Char} {r : Routine} (hlead : Blanks lead)
      (hbefore : Blanks before) (hs : Row s r) (hafter : Blanks after) (htrail : Blanks trail) :
      Written (lead ++ '[' :: (before ++ s ++ after ++ [']']) ++ trail) r

/-- The routines of a program and its text, which has a plus sign between two spaces between the
routines. There is at least one routine. -/
inductive Program.Written : List Char → List Routine → Prop
  | one {s : List Char} {r : Routine} (hs : Routine.Written s r) : Written s [r]
  | more {s t : List Char} {r : Routine} {rest : List Routine} (hs : Routine.Written s r)
      (ht : Written t rest) : Written (s ++ [' ', '+', ' '] ++ t) (r :: rest)

/-! ### Faults -/

/-- In the text of a slot, `x` stands where a color should stand and is none. Colors stand in guards
and after `TO:`; a guard ends at the first round bracket before a bar. -/
inductive Slot.BadColor : List Char → List Char → Prop
  | guard {x s : List Char} (hfirst : ¬ [')', '|'] <:+: x ++ [')'])
      (hx : ∀ c : Color, x ≠ [c.letter]) : BadColor ('(' :: (x ++ [')', '|'] ++ s)) x
  | paint {x : List Char} (hx : ∀ c : Color, x ≠ [c.letter]) : BadColor ("TO:".toList ++ x) x
  | guardedPaint {x : List Char} (c : Color) (hx : ∀ c : Color, x ≠ [c.letter]) :
      BadColor ('(' :: ([c.letter] ++ [')', '|'] ++ ("TO:".toList ++ x))) x

/-- The fault of a text that is no slot: a color that is none, and otherwise all of it. -/
inductive Slot.Fault (s : List Char) : SyntaxFault → Prop
  | color {x : List Char} (hx : BadColor s x) : Fault s (.unknownColor (String.ofList x))
  | instruction (hcolor : ∀ x, ¬ BadColor s x) (hslot : ∀ slot, ¬ Written s slot) :
      Fault s (.unknownInstruction (String.ofList s))

/-- The fault of a text that is no routine: that it does not stand in square brackets, and otherwise
the fault of the first text between the commas in them that is no slot. -/
inductive Routine.Fault (s : List Char) : SyntaxFault → Prop
  | unbracketed (hs : ∀ inside, trim s ≠ '[' :: (inside ++ [']'])) :
      Fault s (.unbracketed (String.ofList (trim s)))
  | slot {inside token : List Char} {before after : List (List Char)} {f : SyntaxFault}
      (hs : trim s = '[' :: (inside ++ [']'])) (hinside : ¬ Blanks inside)
      (htokens : (trim inside).splitOn ',' = before ++ token :: after)
      (hbefore : ∀ t ∈ before, ∃ slot, Slot.Written (trim t) slot)
      (htoken : Slot.Fault (trim token) f) : Fault s f

/-- The fault of a text that is no program: that of the first text between the separators that is
no routine. -/
inductive Program.Fault (s : List Char) : SyntaxFault → Prop
  | routine {piece : List Char} {before after : List (List Char)} {f : SyntaxFault}
      (hpieces : Text.pieces [' ', '+', ' '] s = before ++ piece :: after)
      (hbefore : ∀ t ∈ before, ∃ r, Routine.Written t r) (hpiece : Routine.Fault piece f) :
      Fault s f

/-! ### First characters -/

/-- The text of an operation begins neither like a guard nor like an empty slot. -/
theorem Operation.Written.exists_eq_cons {s : List Char} {o : Operation} (hs : o.Written s) :
    ∃ c t, s = c :: t ∧ c ≠ '(' ∧ c ≠ '_' := by
  cases hs with
  | forward => exact ⟨_, _, rfl, by decide, by decide⟩
  | left => exact ⟨_, _, rfl, by decide, by decide⟩
  | right => exact ⟨_, _, rfl, by decide, by decide⟩
  | paint c => exact ⟨_, _, rfl, by decide, by decide⟩
  | call => exact ⟨_, _, rfl, by decide, by decide⟩

theorem Instruction.Written.ne_empty {s : List Char} {i : Instruction} (hs : i.Written s) :
    s ≠ ['_'] := by
  cases hs with
  | unguarded hs =>
    obtain ⟨c, t, rfl, -, hc⟩ := hs.exists_eq_cons
    exact fun h ↦ hc (List.cons.inj h).1
  | guarded => exact fun h ↦ absurd (List.cons.inj h).1 (by decide)

theorem Slot.BadColor.ne_empty {s x : List Char} (hx : BadColor s x) : s ≠ ['_'] := by
  cases hx <;> exact fun h ↦ absurd (List.cons.inj h).1 (by decide)

/-! ### Characters of written slots -/

theorem isMark_or_eq_of_all {s : List Char} (hs : s.all isMark = true) :
    ∀ c ∈ s, isMark c = true ∨ c = '+' :=
  fun c hc ↦ Or.inl (List.all_eq_true.1 hs c hc)

theorem Operation.Written.forall_isMark {s : List Char} {o : Operation} (hs : o.Written s) :
    ∀ c ∈ s, isMark c = true ∨ c = '+' := by
  cases hs with
  | forward => exact isMark_or_eq_of_all rfl
  | left => exact isMark_or_eq_of_all rfl
  | right => exact isMark_or_eq_of_all rfl
  | paint color => cases color <;> exact isMark_or_eq_of_all rfl
  | call hs =>
    have hdigits : ∀ {t n}, Text.Digits t n → ∀ c ∈ t, isMark c = true ∨ c = '+' :=
      fun ht c hc ↦ Or.inl (isMark_of_isDigit (ht.forall_isDigit c hc))
    refine List.forall_mem_cons.2 ⟨Or.inl rfl, ?_⟩
    cases hs with
    | plain hs => exact hdigits hs
    | signed hs => exact List.forall_mem_cons.2 ⟨Or.inr rfl, hdigits hs⟩

namespace Slot

variable {s before after : List Char} {slot : Slot}

/-- **The characters of a written slot** are marks or plus signs. -/
theorem Written.forall_isMark (hs : Written s slot) : ∀ c ∈ s, isMark c = true ∨ c = '+' := by
  cases hs with
  | empty => exact isMark_or_eq_of_all rfl
  | filled hs =>
    cases hs with
    | unguarded hs => exact hs.forall_isMark
    | guarded color hs =>
      refine List.forall_mem_cons.2 ⟨Or.inl rfl, List.forall_mem_append.2 ⟨?_, hs.forall_isMark⟩⟩
      cases color <;> exact isMark_or_eq_of_all rfl

theorem Written.ne_nil (hs : Written s slot) : s ≠ [] := by
  cases hs with
  | empty => exact List.cons_ne_nil _ _
  | filled hs =>
    cases hs with
    | unguarded hs =>
      obtain ⟨c, t, rfl, -⟩ := hs.exists_eq_cons
      exact List.cons_ne_nil c t
    | guarded => exact List.cons_ne_nil _ _

theorem Written.solid (hs : Written s slot) : Solid s := by
  refine Text.solid_of_forall hs.ne_nil fun c hc ↦ ?_
  obtain hmark | rfl := hs.forall_isMark c hc
  · exact isBlank_of_isMark hmark
  · decide

/-- There is no comma in a slot and the blanks around it. -/
theorem Written.comma_notMem (hs : Written s slot) (hbefore : Blanks before)
    (hafter : Blanks after) : ',' ∉ before ++ s ++ after := by
  have hblanks : ∀ {t}, Blanks t → ',' ∉ t := fun ht hmem ↦ absurd (ht _ hmem) (by decide)
  rw [List.mem_append, List.mem_append, not_or, not_or]
  refine ⟨⟨hblanks hbefore, fun hmem ↦ ?_⟩, hblanks hafter⟩
  obtain hmark | hplus := hs.forall_isMark _ hmem
  · exact absurd hmark (by decide)
  · exact absurd hplus (by decide)

end Slot

/-! ### Texts in which the separator does not occur -/

/-- If `b` is a plus sign, it does not come after a space `a`. -/
def Joined (a b : Char) : Prop := b = '+' → a ≠ ' '

/-- No plus sign follows a space in `s`, not even if a space is put before it. -/
def Separable (s : List Char) : Prop := (' ' :: s).IsChain Joined

theorem isChain_of_notMem {s : List Char} (hs : '+' ∉ s) (a : Char) : (a :: s).IsChain Joined := by
  induction s generalizing a with
  | nil => exact .singleton a
  | cons c s ih =>
    refine List.isChain_cons_cons.2 ⟨fun hc ↦ ?_, ih (List.not_mem_of_not_mem_cons hs) c⟩
    exact absurd (hc ▸ List.mem_cons_self) hs

theorem separable_of_notMem {s : List Char} (hs : '+' ∉ s) : Separable s := isChain_of_notMem hs ' '

theorem Separable.append {s t : List Char} (hs : Separable s) (ht : Separable t) :
    Separable (s ++ t) := by
  obtain ⟨hhead, hchain⟩ := List.isChain_cons.1 ht
  refine List.isChain_append.2 ⟨hs, hchain, fun x _ y hy hplus ↦ ?_⟩
  exact absurd rfl (hhead y hy hplus)

/-- **The separator of routines does not occur** in a separable text, not even across its end. -/
theorem Separable.not_infix {s : List Char} (hs : Separable s) :
    ¬ [' ', '+', ' '] <:+: s ++ [' ', '+'] := by
  have hnot : ¬ [' ', '+'] <:+: s := fun hoccurs ↦ by
    have hchain := hs.infix (hoccurs.trans (List.suffix_cons ' ' s).isInfix)
    exact absurd rfl ((List.isChain_cons_cons.1 hchain).1 rfl)
  have hends : s ++ [' ', '+'] = s ++ [' '] ++ ['+'] := by rw [List.append_assoc]; rfl
  rw [hends, List.infix_concat_iff, List.infix_concat_iff]
  intro hoccurs
  rcases hoccurs with ⟨t, ht⟩ | ⟨t, ht⟩ | hoccurs
  · have hlast := congrArg List.getLast? ht
    simp at hlast
  · have heq : t ++ [' ', '+'] ++ [' '] = s ++ [' '] := by rwa [List.append_assoc]
    exact hnot ⟨t, [], (List.append_nil _).trans (List.append_cancel_right heq)⟩
  · exact hnot ((List.prefix_append [' ', '+'] [' ']).isInfix.trans hoccurs)

theorem separable_of_blanks {s : List Char} (hs : Blanks s) : Separable s :=
  separable_of_notMem fun hmem ↦ absurd (hs _ hmem) (by decide)

theorem Operation.Written.separable {s : List Char} {o : Operation} (hs : o.Written s) :
    Separable s := by
  cases hs with
  | forward => exact separable_of_notMem (by decide)
  | left => exact separable_of_notMem (by decide)
  | right => exact separable_of_notMem (by decide)
  | paint c => exact separable_of_notMem (by cases c <;> decide)
  | call hs =>
    -- a plus sign at the beginning of a number comes after the letter
    have hdigits : ∀ {t n}, Text.Digits t n → ∀ a, (a :: t).IsChain Joined := fun ht ↦
      isChain_of_notMem fun hmem ↦ absurd (ht.forall_isDigit _ hmem) (by decide)
    cases hs with
    | plain hs => exact List.isChain_cons_cons.2 ⟨nofun, hdigits hs 'F'⟩
    | signed hs =>
      have hletter : Joined 'F' '+' := fun _ ↦ by decide
      exact List.isChain_cons_cons.2 ⟨nofun, List.isChain_cons_cons.2 ⟨hletter, hdigits hs '+'⟩⟩

theorem Slot.Written.separable {s : List Char} {slot : Slot} (hs : Slot.Written s slot) :
    Separable s := by
  cases hs with
  | empty => exact separable_of_notMem (by decide)
  | filled hs =>
    cases hs with
    | unguarded hs => exact hs.separable
    | guarded c hs =>
      have hguard : Separable ('(' :: ([c.letter] ++ [')', '|'])) :=
        separable_of_notMem (by cases c <;> decide)
      exact hguard.append hs.separable

namespace Routine

variable {s : List Char} {r : Routine}

theorem Row.separable (hs : Row s r) : Separable s := by
  induction hs with
  | one hs => exact hs.separable
  | more hs hbefore hafter _ ih =>
    have hcomma : Separable [','] := separable_of_notMem (by decide)
    exact (((hs.separable.append (separable_of_blanks hbefore)).append hcomma).append
      (separable_of_blanks hafter)).append ih

/-- **A written routine is separable**, although the numbers in it may begin with plus signs. -/
theorem Written.separable (hs : Routine.Written s r) : Separable s := by
  have hopen : Separable ['['] := separable_of_notMem (by decide)
  have hclose : Separable [']'] := separable_of_notMem (by decide)
  cases hs with
  | empty hlead hinside htrail =>
    exact ((separable_of_blanks hlead).append (hopen.append
      ((separable_of_blanks hinside).append hclose))).append (separable_of_blanks htrail)
  | row hlead hbefore hs hafter htrail =>
    exact ((separable_of_blanks hlead).append (hopen.append
      ((((separable_of_blanks hbefore).append hs.separable).append
        (separable_of_blanks hafter)).append hclose))).append (separable_of_blanks htrail)

end Routine

end TileRobot
