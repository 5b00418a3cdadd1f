import Mathlib.Data.List.Induction
import TileRobot.Proofs.Program.Grammar

/-!
# Reading is recognizing

The reader of programs cuts, trims and compares beginnings, and the grammar of programs knows
nothing of that. Here both are shown to agree, from numerals up to programs. What is read as a slot,
a routine or a program is what the grammar derives as one (`read_eq_ok_iff`), and what is reported
otherwise is the fault (`read_eq_error_iff`).

At each of the three places where the reader cuts there is one way from the cut text to a derivation
and one back. A guard ends at the first `)|` (`Instruction.splitGuard_eq_some_iff`). A row of slots
is cut at the commas (`Routine.Row.forall₂_splitOn`, `Routine.exists_row`), and what is trimmed from
its tokens are the blanks that the grammar allows between them. A program is cut at the separator of
routines (`Program.Written.forall₂_pieces`, `Program.written_intercalate`).

Up to slots, one lemma for each level says all that reading can come to (`Slot.read_cases`): the
slot, a color at fault or all of the token at fault. The first two are come to wherever the grammar
has them (`Slot.read_of_written`, `Slot.read_of_badColor`), so the third is what is left.

## Main statements

* `Program.read_iff_grammar`: the reader accepts exactly the texts that the grammar derives, with
  the routines of the derivation, and reports the fault of the others.
* `Program.Written.unique`: the grammar is unambiguous.
* `Program.exists_fault_iff`: what it does not derive has a fault.
-/

namespace TileRobot

open Text (Blanks Solid trim)

/-! ### Numerals -/

namespace Text

variable {s : List Char} {n : Nat}

theorem digits_ofDigitChars (hne : s ≠ []) (hs : ∀ c ∈ s, c.isDigit = true) :
    Digits s (Nat.ofDigitChars 10 s 0) := by
  induction s using List.reverseRecOn with
  | nil => contradiction
  | append_singleton s c ih =>
    obtain ⟨hs, hc⟩ := List.forall_mem_append.1 hs
    have hdigit := hc c List.mem_cons_self
    rw [Nat.ofDigitChars_append, Nat.ofDigitChars_cons, Nat.ofDigitChars_nil]
    rcases s.eq_nil_or_concat with rfl | ⟨t, d, rfl⟩
    · simpa using Digits.single hdigit
    · exact (ih (by simp) hs).snoc hdigit

theorem Digits.ofDigitChars_eq (hs : Digits s n) : Nat.ofDigitChars 10 s 0 = n := by
  induction hs with
  | single hc => simp [Nat.ofDigitChars_cons]
  | snoc _ _ ih => rw [Nat.ofDigitChars_append, ih, Nat.ofDigitChars_cons, Nat.ofDigitChars_nil]

theorem readDigits?_eq_some_iff : readDigits? s = some n ↔ Digits s n := by
  rw [readDigits?]
  constructor
  · intro hread
    split at hread
    · rename_i hs
      obtain rfl := Option.some.inj hread
      exact digits_ofDigitChars hs.1 (List.all_eq_true.1 hs.2)
    · contradiction
  · intro hs
    rw [if_pos ⟨hs.ne_nil, List.all_eq_true.2 hs.forall_isDigit⟩, hs.ofDigitChars_eq]

theorem readNat?_eq_some_iff {limit : Nat} :
    readNat? limit s = some n ↔ Numeral s n ∧ n < limit := by
  rw [readNat?, Option.filter_eq_some_iff, decide_eq_true_iff, readDigits?_eq_some_iff]
  refine and_congr_left fun _ ↦ ?_
  split
  · rename_i hplus
    obtain ⟨t, rfl⟩ := List.head?_eq_some_iff.1 hplus
    refine ⟨Numeral.signed, fun hs ↦ ?_⟩
    cases hs with
    | plain hs => exact absurd (hs.forall_isDigit '+' List.mem_cons_self) (by decide)
    | signed hs => exact hs
  · rename_i hplus
    refine ⟨Numeral.plain, fun hs ↦ ?_⟩
    cases hs with
    | plain hs => exact hs
    | signed hs => exact absurd rfl hplus

end Text

/-! ### Colors and operations -/

theorem Color.read_letter (c : Color) : Color.read [c.letter] = .ok c := by
  cases c <;> rfl

theorem Color.read_of_ne {s : List Char} (hs : ∀ c : Color, s ≠ [c.letter]) :
    Color.read s = .error (.unknownColor (String.ofList s)) := by
  unfold Color.read
  split
  · split
    · rename_i hx
      exact absurd (congrArg ([·]) (ofLetter?_eq_some_iff.1 hx)) (hs _)
    · rfl
  · rfl

namespace Operation

variable {s : List Char} {o : Operation}

theorem read_paint (whole x : List Char) :
    Operation.read whole ("TO:".toList ++ x) = (Color.read x).map .paint := by
  unfold Operation.read
  simp

/-- **What the reading of an operation comes to:** the operation, or a color at fault, or all of the
instruction at fault. -/
theorem read_cases (whole s : List Char) :
    (∃ o : Operation, o.Written s ∧ Operation.read whole s = .ok o) ∨
      (∃ x, s = "TO:".toList ++ x ∧ (∀ c : Color, x ≠ [c.letter]) ∧
        Operation.read whole s = .error (.unknownColor (String.ofList x))) ∨
      Operation.read whole s = .error (.unknownInstruction (String.ofList whole)) := by
  unfold Operation.read
  split
  · rename_i hs
    exact Or.inl ⟨_, hs ▸ Written.forward, rfl⟩
  split
  · rename_i hs
    exact Or.inl ⟨_, hs ▸ Written.left, rfl⟩
  split
  · rename_i hs
    exact Or.inl ⟨_, hs ▸ Written.right, rfl⟩
  split
  · rename_i x _ _ _
    by_cases hx : ∃ c : Color, x = [c.letter]
    · obtain ⟨c, rfl⟩ := hx
      exact Or.inl ⟨_, Written.paint c, by rw [Color.read_letter]; rfl⟩
    · have hcolor := Color.read_of_ne (not_exists.1 hx)
      exact Or.inr (Or.inl ⟨x, rfl, not_exists.1 hx, by rw [hcolor]; rfl⟩)
  · split
    · rename_i hnumber
      obtain ⟨hs, ht⟩ := Text.readNat?_eq_some_iff.1 hnumber
      exact Or.inl ⟨_, Written.call hs ht, rfl⟩
    · exact Or.inr (Or.inr rfl)
  · exact Or.inr (Or.inr rfl)

theorem read_of_written (whole : List Char) (hs : o.Written s) :
    Operation.read whole s = .ok o := by
  cases hs with
  | forward => rfl
  | left => rfl
  | right => rfl
  | paint c => rw [read_paint, Color.read_letter]; rfl
  | call hs ht =>
    have hnumber := Text.readNat?_eq_some_iff.2 ⟨hs, ht⟩
    unfold Operation.read
    simp [hnumber]

end Operation

/-! ### Instructions -/

namespace Instruction

variable {s x t : List Char} {i : Instruction}

/-- **A guard ends at the first round bracket before a bar.** -/
theorem splitGuard_eq_some_iff : splitGuard s = (some x, t) ↔
    s = '(' :: (x ++ [')', '|'] ++ t) ∧ ¬ [')', '|'] <:+: x ++ [')'] := by
  have hcut : ∀ inside, Text.cut? [')', '|'] inside = some (x, t) ↔
      inside = x ++ [')', '|'] ++ t ∧ ¬ [')', '|'] <:+: x ++ [')'] := fun _ ↦
    Text.cut?_eq_some_iff (List.cons_ne_nil _ _)
  constructor
  · intro hsplit
    unfold splitGuard at hsplit
    split at hsplit
    · split at hsplit
      · rename_i inside _ _ _ h
        obtain ⟨⟨⟩, rfl⟩ := Prod.mk.inj hsplit
        obtain ⟨rfl, hfirst⟩ := (hcut inside).1 h
        exact ⟨rfl, hfirst⟩
      · cases hsplit
    · cases hsplit
  · rintro ⟨rfl, hfirst⟩
    simp only [splitGuard, (hcut _).2 ⟨rfl, hfirst⟩]

theorem eq_of_splitGuard_eq_none (hsplit : splitGuard s = (none, t)) : s = t := by
  unfold splitGuard at hsplit
  split at hsplit
  · split at hsplit
    · cases hsplit
    · exact (Prod.mk.inj hsplit).2
  · exact (Prod.mk.inj hsplit).2

theorem splitGuard_guarded (c : Color) (t : List Char) :
    splitGuard ('(' :: ([c.letter] ++ [')', '|'] ++ t)) = (some [c.letter], t) :=
  splitGuard_eq_some_iff.2 ⟨rfl, by cases c <;> decide⟩

theorem splitGuard_unguarded {c : Char} (hc : c ≠ '(') (t : List Char) :
    splitGuard (c :: t) = (none, c :: t) := by
  rw [splitGuard]
  exact fun inside h ↦ hc (List.cons.inj h).1

section Token

variable {token : List Char} (htoken : trim s = token)

include htoken

/-- The reading of an instruction without a guard. -/
theorem read_of_splitGuard_eq_none (hsplit : splitGuard token = (none, t)) :
    Instruction.read s = (Operation.read token t).map fun o ↦ ⟨o, none⟩ := by
  subst htoken
  simp only [Instruction.read, hsplit]
  rfl

/-- The reading of an instruction with a guard. -/
theorem read_of_splitGuard_eq_some (hsplit : splitGuard token = (some x, t)) :
    Instruction.read s = Color.read x >>= fun c ↦
      (Operation.read token t).map fun o ↦ ⟨o, some c⟩ := by
  subst htoken
  simp only [Instruction.read, hsplit, Option.mapM_some]
  cases Color.read x <;> rfl

/-- **What the reading of an instruction comes to:** the instruction, or a color at fault, or all of
it at fault. -/
theorem read_cases :
    (∃ i : Instruction, i.Written token ∧ Instruction.read s = .ok i) ∨
      (∃ x, Slot.BadColor token x ∧
        Instruction.read s = .error (.unknownColor (String.ofList x))) ∨
      Instruction.read s = .error (.unknownInstruction (String.ofList token)) := by
  rcases hsplit : splitGuard token with ⟨- | x, t⟩
  · rw [read_of_splitGuard_eq_none htoken hsplit]
    obtain rfl := eq_of_splitGuard_eq_none hsplit
    obtain ⟨o, hs, hread⟩ | ⟨x, rfl, hx, hread⟩ | hread := Operation.read_cases token token
    · exact Or.inl ⟨_, Written.unguarded hs, by rw [hread]; rfl⟩
    · exact Or.inr (Or.inl ⟨x, Slot.BadColor.paint hx, by rw [hread]; rfl⟩)
    · exact Or.inr (Or.inr (by rw [hread]; rfl))
  · rw [read_of_splitGuard_eq_some htoken hsplit]
    obtain ⟨rfl, hfirst⟩ := splitGuard_eq_some_iff.1 hsplit
    by_cases hx : ∃ c : Color, x = [c.letter]
    · obtain ⟨c, rfl⟩ := hx
      rw [Color.read_letter]
      obtain ⟨o, hs, hread⟩ | ⟨x, rfl, hx, hread⟩ | hread := Operation.read_cases _ t
      · exact Or.inl ⟨_, Written.guarded c hs, by rw [hread]; rfl⟩
      · exact Or.inr (Or.inl ⟨x, Slot.BadColor.guardedPaint c hx, by rw [hread]; rfl⟩)
      · exact Or.inr (Or.inr (by rw [hread]; rfl))
    · have hcolor := Color.read_of_ne (not_exists.1 hx)
      exact Or.inr (Or.inl ⟨x, Slot.BadColor.guard hfirst (not_exists.1 hx), by rw [hcolor]; rfl⟩)

theorem read_of_written (hi : i.Written token) : Instruction.read s = .ok i := by
  cases hi with
  | unguarded hs =>
    obtain ⟨c, t, rfl, hc, -⟩ := hs.exists_eq_cons
    rw [read_of_splitGuard_eq_none htoken (splitGuard_unguarded hc t),
      Operation.read_of_written _ hs]
    rfl
  | guarded c hs =>
    rw [read_of_splitGuard_eq_some htoken (splitGuard_guarded c _), Color.read_letter,
      Operation.read_of_written _ hs]
    rfl

/-- A faulty color is what is reported, whatever else is wrong. -/
theorem read_of_badColor (hx : Slot.BadColor token x) :
    Instruction.read s = .error (.unknownColor (String.ofList x)) := by
  cases hx with
  | guard hfirst hx =>
    rw [read_of_splitGuard_eq_some htoken (splitGuard_eq_some_iff.2 ⟨rfl, hfirst⟩),
      Color.read_of_ne hx]
    rfl
  | paint hx =>
    have hsplit : splitGuard ("TO:".toList ++ x) = (none, "TO:".toList ++ x) :=
      splitGuard_unguarded (by decide) _
    rw [read_of_splitGuard_eq_none htoken hsplit, Operation.read_paint, Color.read_of_ne hx]
    rfl
  | guardedPaint c hx =>
    rw [read_of_splitGuard_eq_some htoken (splitGuard_guarded c _), Color.read_letter,
      Operation.read_paint, Color.read_of_ne hx]
    rfl

end Token

end Instruction

/-! ### Slots -/

namespace Slot

variable {s x : List Char} {slot : Slot} {f : SyntaxFault}

theorem read_of_eq (hs : trim s = ['_']) : Slot.read s = .ok none := by
  rw [Slot.read, if_pos hs]

/-- The reading of a slot that is not empty. -/
theorem read_of_ne (hs : trim s ≠ ['_']) : Slot.read s = (Instruction.read s).map some := by
  have htrim : Instruction.read (trim s) = Instruction.read s := by
    simp only [Instruction.read, Text.trim_trim]
  rw [Slot.read, if_neg hs, htrim]

/-- **What the reading of a slot comes to:** the slot, or a color at fault, or all of it at
fault. -/
theorem read_cases (s : List Char) :
    (∃ slot, Slot.Written (trim s) slot ∧ Slot.read s = .ok slot) ∨
      (∃ x, BadColor (trim s) x ∧ Slot.read s = .error (.unknownColor (String.ofList x))) ∨
      Slot.read s = .error (.unknownInstruction (String.ofList (trim s))) := by
  by_cases hs : trim s = ['_']
  · exact Or.inl ⟨none, hs ▸ Written.empty, read_of_eq hs⟩
  · rw [read_of_ne hs]
    obtain ⟨i, hi, hread⟩ | ⟨x, hx, hread⟩ | hread := Instruction.read_cases (s := s) rfl
    · exact Or.inl ⟨some i, Written.filled hi, by rw [hread]; rfl⟩
    · exact Or.inr (Or.inl ⟨x, hx, by rw [hread]; rfl⟩)
    · exact Or.inr (Or.inr (by rw [hread]; rfl))

theorem read_of_written (hslot : Slot.Written (trim s) slot) : Slot.read s = .ok slot := by
  generalize htoken : trim s = token at hslot
  cases hslot with
  | empty => exact read_of_eq htoken
  | filled hi =>
    rw [read_of_ne (htoken ▸ hi.ne_empty), Instruction.read_of_written htoken hi]
    rfl

theorem read_of_badColor (hx : BadColor (trim s) x) :
    Slot.read s = .error (.unknownColor (String.ofList x)) := by
  rw [read_of_ne hx.ne_empty, Instruction.read_of_badColor rfl hx]
  rfl

/-- **What can be read as a slot** is what the grammar derives as one, after trimming. -/
theorem read_eq_ok_iff : Slot.read s = .ok slot ↔ Slot.Written (trim s) slot := by
  refine ⟨fun hread ↦ ?_, read_of_written⟩
  obtain ⟨other, hslot, heq⟩ | ⟨x, -, heq⟩ | heq := read_cases s
  · obtain rfl := Except.ok.inj (heq.symm.trans hread)
    exact hslot
  · cases heq.symm.trans hread
  · cases heq.symm.trans hread

/-- **The fault of a slot** is the one that is reported. -/
theorem read_eq_error_iff : Slot.read s = .error f ↔ Slot.Fault (trim s) f := by
  constructor
  · intro hread
    obtain ⟨slot, -, heq⟩ | ⟨x, hx, heq⟩ | heq := read_cases s
    · cases heq.symm.trans hread
    · obtain rfl := Except.error.inj (heq.symm.trans hread)
      exact Fault.color hx
    · obtain rfl := Except.error.inj (heq.symm.trans hread)
      refine Fault.instruction (fun x hx ↦ ?_) fun slot hslot ↦ ?_
      · cases heq.symm.trans (read_of_badColor hx)
      · cases heq.symm.trans (read_of_written hslot)
  · intro hfault
    cases hfault with
    | color hx => exact read_of_badColor hx
    | instruction hcolor hslot =>
      obtain ⟨slot, hs, -⟩ | ⟨x, hx, -⟩ | heq := read_cases s
      · exact absurd hs (hslot slot)
      · exact absurd hx (hcolor x)
      · exact heq

end Slot

/-! ### Routines -/

namespace Routine

variable {s lead trail inside : List Char} {r : Routine} {f : SyntaxFault}

theorem unbracket?_eq_some_iff : unbracket? s = some inside ↔ s = '[' :: (inside ++ [']']) := by
  constructor
  · intro h
    unfold unbracket? at h
    split at h
    · split at h
      · rename_i rest hlast
        obtain rfl := Option.some.inj h
        rw [List.dropLast_append_getLast? _ hlast]
      · contradiction
    · contradiction
  · rintro rfl
    exact unbracket?_append inside

theorem read_of_blanks (hs : trim s = '[' :: (inside ++ [']'])) (hinside : Blanks inside) :
    Routine.read s = .ok [] := by
  simp only [Routine.read, unbracket?_eq_some_iff.2 hs, List.isEmpty_iff,
    if_pos (Text.trim_eq_nil_iff.2 hinside)]

theorem read_of_not_blanks (hs : trim s = '[' :: (inside ++ [']'])) (hinside : ¬ Blanks inside) :
    Routine.read s = ((trim inside).splitOn ',').mapM Slot.read := by
  simp only [Routine.read, unbracket?_eq_some_iff.2 hs, List.isEmpty_iff,
    if_neg (mt Text.trim_eq_nil_iff.1 hinside)]

theorem read_of_not_bracketed (hs : ∀ inside, trim s ≠ '[' :: (inside ++ [']'])) :
    Routine.read s = .error (.unbracketed (String.ofList (trim s))) := by
  have hnone : unbracket? (trim s) = none := Option.eq_none_iff_forall_ne_some.2 fun inside h ↦
    hs inside (unbracket?_eq_some_iff.1 h)
  simp only [Routine.read, hnone]

theorem Row.solid (hs : Row s r) : Solid s := by
  induction hs with
  | one hs => exact hs.solid
  | @more s before after t slot r hs _ _ _ ih =>
    have hsolid := hs.solid.append (before ++ [','] ++ after) ih
    simpa only [List.append_assoc] using hsolid

/-- At the commas a row falls into its slots with the blanks around them. -/
theorem Row.forall₂_splitOn (hs : Row s r) (hlead : Blanks lead) :
    List.Forall₂ (fun token slot ↦ Slot.Written (trim token) slot) ((lead ++ s).splitOn ',') r := by
  induction hs generalizing lead with
  | @one s slot hs =>
    have hcomma := hs.comma_notMem hlead (List.forall_mem_nil _)
    have htrim := Text.trim_append_append hlead (List.forall_mem_nil _) hs.solid
    rw [List.append_nil] at hcomma htrim
    rw [List.splitOn_eq_singleton hcomma, List.forall₂_cons, htrim]
    exact ⟨hs, List.Forall₂.nil⟩
  | @more s before after t slot r hs hbefore hafter _ ih =>
    have happend : lead ++ (s ++ before ++ [','] ++ after ++ t) =
        lead ++ s ++ before ++ ',' :: (after ++ t) := by
      simp only [List.append_assoc, List.cons_append, List.nil_append]
    rw [happend, List.splitOn_append_cons_self_of_not_mem (hs.comma_notMem hlead hbefore),
      List.forall₂_cons, Text.trim_append_append hlead hbefore hs.solid]
    exact ⟨hs, ih hafter⟩

/-- Tokens that are slots among blanks make up a row among blanks. -/
theorem exists_row {tokens : List (List Char)} (hne : tokens ≠ [])
    (htokens : List.Forall₂ (fun token slot ↦ Slot.Written (trim token) slot) tokens r) :
    ∃ lead s trail, Blanks lead ∧ Row s r ∧ Blanks trail ∧
      [','].intercalate tokens = lead ++ s ++ trail := by
  induction htokens with
  | nil => contradiction
  | @cons token slot tokens r hslot htokens ih =>
    obtain ⟨before, after, hbefore, hafter, htoken⟩ := Text.exists_trim token
    rcases tokens with - | ⟨t, tokens⟩
    · obtain rfl := List.forall₂_nil_left_iff.1 htokens
      exact ⟨before, trim token, after, hbefore, Row.one hslot, hafter,
        List.intercalate_singleton.trans htoken⟩
    · obtain ⟨lead, s, trail, hlead, hs, htrail, heq⟩ := ih (List.cons_ne_nil _ _)
      refine ⟨before, _, trail, hbefore, Row.more hslot hafter hlead hs, htrail, ?_⟩
      rw [List.intercalate_cons_cons, heq]
      conv_lhs => rw [htoken]
      simp only [List.append_assoc]

/-- **What can be read as a routine** is what the grammar derives as one. -/
theorem read_eq_ok_iff : Routine.read s = .ok r ↔ Routine.Written s r := by
  constructor
  · intro hread
    by_cases hs : ∃ inside, trim s = '[' :: (inside ++ [']'])
    · obtain ⟨inside, hs⟩ := hs
      obtain ⟨lead, trail, hlead, htrail, heq⟩ := Text.exists_trim s
      rw [heq, hs]
      by_cases hinside : Blanks inside
      · rw [read_of_blanks hs hinside] at hread
        obtain rfl := Except.ok.inj hread
        exact Written.empty hlead hinside htrail
      · rw [read_of_not_blanks hs hinside, Text.mapM_eq_ok_iff] at hread
        simp only [Slot.read_eq_ok_iff] at hread
        obtain ⟨before, row, after, hbefore, hrow, hafter, hbody⟩ :=
          exists_row (List.splitOn_ne_nil _ _) hread
        obtain ⟨before', after', hbefore', hafter', htrim⟩ := Text.exists_trim inside
        rw [List.intercalate_splitOn] at hbody
        rw [htrim, hbody]
        have hwritten := Written.row hlead (hbefore'.append hbefore) hrow (hafter.append hafter')
          htrail
        simpa only [List.append_assoc] using hwritten
    · rw [read_of_not_bracketed (not_exists.1 hs)] at hread
      contradiction
  · intro hs
    cases hs with
    | empty hlead hinside htrail =>
      exact read_of_blanks (Text.trim_append_append hlead htrail (solid_bracketed _)) hinside
    | @row lead before s after trail r hlead hbefore hs hafter htrail =>
      have hinside : ¬ Blanks (before ++ s ++ after) := fun hblanks ↦
        hs.solid.not_blanks fun c hc ↦
          hblanks c (List.mem_append_left after (List.mem_append_right before hc))
      have hbracketed := Text.trim_append_append hlead htrail
        (solid_bracketed (before ++ s ++ after))
      rw [read_of_not_blanks hbracketed hinside, Text.trim_append_append hbefore hafter hs.solid,
        Text.mapM_eq_ok_iff]
      simp only [Slot.read_eq_ok_iff]
      exact hs.forall₂_splitOn (List.forall_mem_nil _)

example : Routine.read "\t[ _ ,(R)|F+07 ]".toList = .ok [none, some ⟨.call 6, some .red⟩] := by
  rfl

/-- **The fault of a routine** is the one that is reported. -/
theorem read_eq_error_iff : Routine.read s = .error f ↔ Routine.Fault s f := by
  constructor
  · intro hread
    by_cases hs : ∃ inside, trim s = '[' :: (inside ++ [']'])
    · obtain ⟨inside, hs⟩ := hs
      by_cases hinside : Blanks inside
      · rw [read_of_blanks hs hinside] at hread
        contradiction
      · rw [read_of_not_blanks hs hinside, Text.mapM_eq_error_iff] at hread
        obtain ⟨before, token, after, htokens, hbefore, htoken⟩ := hread
        simp only [Slot.read_eq_ok_iff] at hbefore
        exact Fault.slot hs hinside htokens hbefore (Slot.read_eq_error_iff.1 htoken)
    · rw [read_of_not_bracketed (not_exists.1 hs)] at hread
      obtain rfl := Except.error.inj hread
      exact Fault.unbracketed (not_exists.1 hs)
  · intro hfault
    cases hfault with
    | unbracketed hs => exact read_of_not_bracketed hs
    | slot hs hinside htokens hbefore htoken =>
      rw [read_of_not_blanks hs hinside, Text.mapM_eq_error_iff]
      simp only [Slot.read_eq_ok_iff]
      exact ⟨_, _, _, htokens, hbefore, Slot.read_eq_error_iff.2 htoken⟩

example : Routine.read "[ left, (X)|jump, walk ]".toList = .error (.unknownColor "X") := by rfl

end Routine

/-! ### Programs -/

namespace Program

variable {s : List Char} {routines : List Routine}

/-- At the separators a written program falls into its routines. -/
theorem Written.forall₂_pieces (hs : Written s routines) :
    List.Forall₂ Routine.Written (Text.pieces [' ', '+', ' '] s) routines := by
  induction hs with
  | one hs =>
    have hnot : ¬ [' ', '+', ' '] <:+: _ := fun hoccurs ↦
      hs.separable.not_infix (hoccurs.trans (List.prefix_append _ _).isInfix)
    rw [Text.pieces_of_cut?_eq_none _ ((Text.cut?_eq_none_iff (List.cons_ne_nil _ _)).2 hnot)]
    exact List.forall₂_cons.2 ⟨hs, List.Forall₂.nil⟩
  | more hs ht ih =>
    rw [Text.pieces_of_cut?_eq_some _ ((Text.cut?_eq_some_iff (List.cons_ne_nil _ _)).2
      ⟨rfl, hs.separable.not_infix⟩)]
    exact List.forall₂_cons.2 ⟨hs, ih⟩

theorem written_intercalate {pieces : List (List Char)} (hne : pieces ≠ [])
    (hpieces : List.Forall₂ Routine.Written pieces routines) :
    Written ([' ', '+', ' '].intercalate pieces) routines := by
  induction hpieces with
  | nil => contradiction
  | @cons piece r pieces rest hs hpieces ih =>
    rcases pieces with - | ⟨t, pieces⟩
    · obtain rfl := List.forall₂_nil_left_iff.1 hpieces
      rw [List.intercalate_singleton]
      exact Written.one hs
    · rw [List.intercalate_cons_cons]
      exact Written.more hs (ih (List.cons_ne_nil _ _))

/-- A program is read by reading the pieces of its text. -/
theorem read_eq_map (text : String) : Program.read text =
    ((Text.pieces [' ', '+', ' '] text.toList).mapM Routine.read).map Program.mk := by
  rw [Program.read]
  cases (Text.pieces [' ', '+', ' '] text.toList).mapM Routine.read <;> rfl

variable {text : String} {p : Program} {f : SyntaxFault}

theorem read_eq_ok_iff : Program.read text = .ok p ↔ Written text.toList p.routines := by
  rw [read_eq_map, Text.map_eq_ok_iff]
  simp only [Text.mapM_eq_ok_iff, Routine.read_eq_ok_iff]
  constructor
  · rintro ⟨routines, hpieces, rfl⟩
    have hwritten := written_intercalate (Text.pieces_ne_nil _ _ _) hpieces
    rwa [Text.intercalate_pieces] at hwritten
  · exact fun hs ↦ ⟨p.routines, hs.forall₂_pieces, rfl⟩

theorem read_eq_error_iff : Program.read text = .error f ↔ Fault text.toList f := by
  rw [read_eq_map, Text.map_eq_error_iff, Text.mapM_eq_error_iff]
  simp only [Routine.read_eq_ok_iff, Routine.read_eq_error_iff]
  constructor
  · rintro ⟨before, piece, after, hpieces, hbefore, hpiece⟩
    exact Fault.routine hpieces hbefore hpiece
  · rintro ⟨hpieces, hbefore, hpiece⟩
    exact ⟨_, _, _, hpieces, hbefore, hpiece⟩

/-- **The grammar is unambiguous.** -/
theorem Written.unique {other : List Routine} (hs : Written s routines) (hother : Written s other) :
    routines = other := by
  rw [← String.toList_ofList (l := s)] at hs hother
  have hread : Program.read (String.ofList s) = .ok ⟨routines⟩ := read_eq_ok_iff.2 hs
  have hread' : Program.read (String.ofList s) = .ok ⟨other⟩ := read_eq_ok_iff.2 hother
  exact congrArg Program.routines (Except.ok.inj (hread.symm.trans hread'))

/-- A text has a fault exactly if it is no program. -/
theorem exists_fault_iff : (∃ f, Fault s f) ↔ ∀ routines, ¬ Written s routines := by
  rw [← String.toList_ofList (l := s)]
  constructor
  · rintro ⟨f, hfault⟩ routines hs
    have hread : Program.read (String.ofList s) = .ok ⟨routines⟩ := read_eq_ok_iff.2 hs
    rw [read_eq_error_iff.2 hfault] at hread
    contradiction
  · intro hnot
    rcases hread : Program.read (String.ofList s) with f | p
    · exact ⟨f, read_eq_error_iff.1 hread⟩
    · exact absurd (read_eq_ok_iff.1 hread) (hnot p.routines)

/-- **What is read is what the grammar derives.** A text is read as a program exactly if the
grammar derives it from the routines of that program, and otherwise its fault is reported. -/
theorem read_iff_grammar (text : String) :
    (∀ p, Program.read text = .ok p ↔ Written text.toList p.routines) ∧
      ∀ f, Program.read text = .error f ↔ Fault text.toList f :=
  ⟨fun _ ↦ read_eq_ok_iff, fun _ ↦ read_eq_error_iff⟩

end Program

end TileRobot
