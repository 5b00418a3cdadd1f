import Mathlib.Data.List.TakeWhile
import TileRobot.Json.Token
import TileRobot.Proofs.Json.Lines

/-!
# Reading the tokens that were written

A string between its quotes and an integer by its digits are read as what they write
(`readToken?_renderString`, `readToken?_renderInteger`). The two need different things of what comes
after them. A string says itself where it ends: its letters are read one by one, each from what was
written for it, and a quote among them is escaped. The digits of an integer do not end by
themselves, so nothing may come after them that goes on with the number (`EndsValue`).

A character has one of three written forms, a short escape, its number, or itself
(`render_char_cases`), and each of them is read as that character again.
-/

namespace TileRobot.Json

variable {c : Char}

/-! ### Strings -/

/-- Puts a letter before those that have been read. -/
def Letter.before (x : Letter) (read : List Letter × List Char) : List Letter × List Char :=
  (x :: read.1, read.2)

theorem readLetters?_escape {e : Char} (he : e ≠ 'u') (hc : escaped? e = some c) (s : List Char) :
    readLetters? ('\\' :: e :: s) = (readLetters? s).map (Letter.char c).before := by
  rw [readLetters?, hc]
  · rcases readLetters? s with - | read <;> rfl
  · exact fun _ _ _ _ _ h _ ↦ he h

theorem readLetters?_plain (hc : 0x20 ≤ c.toNat) (hquote : c ≠ '\x22') (hslash : c ≠ '\\')
    (s : List Char) : readLetters? (c :: s) = (readLetters? s).map (Letter.char c).before := by
  rw [readLetters?, if_neg (Nat.not_lt.2 hc)]
  · rfl
  · exact hquote
  · exact fun _ _ _ _ _ h _ ↦ hslash h
  · exact fun _ _ h _ ↦ hslash h

theorem hexDigit?_hexDigit (n : Nat) : hexDigit? (hexDigit n) = some (n % 16) := by
  have hall : ∀ d < 16, hexDigit? (Nat.digitChar d) = some d := by decide
  exact hall _ (Nat.mod_lt n (by decide))

/-- The escape of a control character by its number is read as that character. -/
theorem readLetters?_unitEscape (hc : c.toNat < 0x20) (s : List Char) :
    readLetters? (unitEscape c.toNat ++ s) = (readLetters? s).map (Letter.char c).before := by
  have hnumber : hexNumber? (hexDigit (c.toNat / 0x1000)) (hexDigit (c.toNat / 0x100))
      (hexDigit (c.toNat / 0x10)) (hexDigit c.toNat) = some c.toNat := by
    simp only [hexNumber?, hexDigit?_hexDigit, Option.pure_def, Option.bind_eq_bind,
      Option.bind_some, Option.some.injEq]
    omega
  have hunit : Letter.ofUnit c.toNat = .char c := by
    rw [Letter.ofUnit, isHighSurrogate, isLowSurrogate, if_neg, Char.ofNat_toNat]
    simp only [Bool.or_eq_true, Bool.and_eq_true, decide_eq_true_eq]
    omega
  simp only [unitEscape, List.cons_append, List.nil_append]
  rw [readLetters?, hnumber]
  rcases readLetters? s with - | read
  · rfl
  · show some (Letter.ofUnit c.toNat :: read.1, read.2) = _
    rw [hunit]
    rfl

/-- A character is written by a short escape, by its number, or as it stands. -/
theorem render_char_cases (c : Char) :
    (∃ e, (Letter.char c).render = ['\\', e] ∧ escaped? e = some c ∧ e ≠ 'u') ∨
      ((Letter.char c).render = unitEscape c.toNat ∧ c.toNat < 0x20) ∨
      ((Letter.char c).render = [c] ∧ 0x20 ≤ c.toNat ∧ c ≠ '\x22' ∧ c ≠ '\\') := by
  simp only [Letter.render]
  split_ifs with h h h h h h h hcontrol
  -- the quote, the backslash, and the control characters with a letter for them
  iterate 7 exact Or.inl ⟨_, rfl, (congrArg some h).symm, by decide⟩
  · exact Or.inr (Or.inl ⟨rfl, hcontrol⟩)
  · exact Or.inr (Or.inr ⟨rfl, Nat.not_lt.1 hcontrol, ‹¬ c = '\x22'›, ‹¬ c = '\\'›⟩)

/-- **What is written for a character is read as that character**, whatever comes after it. -/
theorem readLetters?_render (c : Char) (s : List Char) :
    readLetters? ((Letter.char c).render ++ s) = (readLetters? s).map (Letter.char c).before := by
  rcases render_char_cases c with ⟨e, heq, hc, he⟩ | ⟨heq, hc⟩ | ⟨heq, hc, hquote, hslash⟩
  · rw [heq]
    exact readLetters?_escape he hc s
  · rw [heq]
    exact readLetters?_unitEscape hc s
  · rw [heq]
    exact readLetters?_plain hc hquote hslash s

theorem readLetters?_flatMap_render (l rest : List Char) :
    readLetters? ((l.map Letter.char).flatMap Letter.render ++ '\x22' :: rest) =
      some (l.map Letter.char, rest) := by
  induction l with
  | nil => rfl
  | cons c l ih =>
    rw [List.map_cons, List.flatMap_cons, List.append_assoc, readLetters?_render, ih]
    rfl

theorem joinPairs_map_char (l : List Char) : joinPairs (l.map Letter.char) = l.map Letter.char := by
  induction l with
  | nil => rfl
  | cons c l ih =>
    rw [List.map_cons, joinPairs, ih]
    exact nofun

theorem readToken?_renderString (text : String) (rest : List Char) :
    readToken? (renderString (letters text) ++ rest) =
      some (.scalar (Value.ofString text), rest) := by
  have hread := readLetters?_flatMap_render text.toList rest
  rw [renderString, List.append_assoc, List.cons_append]
  show (readLetters? ((letters text).flatMap Letter.render ++ '\x22' :: rest)).map _ = _
  rw [letters, hread, Option.map_some]
  show some (Token.scalar (.string (joinPairs (text.toList.map Letter.char))), rest) = _
  rw [joinPairs_map_char]
  rfl

/-! ### Numbers -/

/-- Nothing comes next, or a mark that may stand after a value. -/
def EndsValue (rest : List Char) : Prop := ∀ c ∈ rest.head?, c = ',' ∨ c = ']' ∨ c = '\x7d'

section

variable {rest : List Char}

theorem endsValue_nil : EndsValue [] := fun _ hc ↦ absurd hc (Option.not_mem_none _)

theorem endsValue_cons {c : Char} (hc : c = ',' ∨ c = ']' ∨ c = '\x7d') (rest : List Char) :
    EndsValue (c :: rest) := by
  intro d hd
  obtain rfl := Option.some.inj hd
  exact hc

theorem EndsValue.takeWhile_isDigit (hrest : EndsValue rest) :
    rest.takeWhile Char.isDigit = [] ∧ rest.dropWhile Char.isDigit = rest := by
  rcases rest with - | ⟨c, rest⟩
  · exact ⟨rfl, rfl⟩
  · have hc : c.isDigit = false := by
      rcases hrest c rfl with rfl | rfl | rfl <;> rfl
    exact ⟨List.takeWhile_cons_of_neg (by simp [hc]), List.dropWhile_cons_of_neg (by simp [hc])⟩

theorem EndsValue.readFraction? (hrest : EndsValue rest) :
    readFraction? rest = some ([], rest) := by
  rcases rest with - | ⟨c, rest⟩
  · rfl
  · rcases hrest c rfl with rfl | rfl | rfl <;> rfl

theorem EndsValue.readExponent? (hrest : EndsValue rest) :
    readExponent? rest = some ([], rest) := by
  rcases rest with - | ⟨c, rest⟩
  · rfl
  · rcases hrest c rfl with rfl | rfl | rfl <;> rfl

/-- A number is written with at least one digit, and the first one is not a zero, unless the number
is zero. -/
theorem exists_digits_eq_cons (n : Nat) :
    ∃ c s, Text.digits n = c :: s ∧ c.isDigit = true ∧ (0 < n → c ≠ '0') := by
  induction n using Nat.strongRecOn with
  | ind n ih =>
    rcases Nat.lt_or_ge n 10 with hlt | hge
    · have hall : ∀ d < 10, (Nat.digitChar d).isDigit = true ∧ (0 < d → Nat.digitChar d ≠ '0') := by
        decide
      exact ⟨Nat.digitChar n, [], Nat.toDigits_of_lt_base hlt, hall n hlt⟩
    · obtain ⟨c, s, hhigh, hc, hzero⟩ := ih (n / 10) (by omega)
      refine ⟨c, s ++ [Nat.digitChar (n % 10)], ?_, hc, fun _ ↦ hzero (by omega)⟩
      rw [Text.digits, Nat.toDigits_of_base_le (by decide) hge, ← Text.digits, hhigh,
        List.cons_append]

theorem readWhole?_digits (n : Nat) (hrest : EndsValue rest) :
    readWhole? (Text.digits n ++ rest) = some (Text.digits n, rest) := by
  have hall : ∀ c ∈ Text.digits n, c.isDigit = true := fun c ↦ Text.isDigit_of_mem_digits
  have hne : (Text.digits n).isEmpty = false := List.isEmpty_eq_false_iff.2 Nat.toDigits_ne_nil
  obtain ⟨htake, hdrop⟩ := hrest.takeWhile_isDigit
  rw [readWhole?, readDigits?, List.takeWhile_append_of_pos hall, htake, List.append_nil,
    List.dropWhile_append_of_pos hall, hdrop, hne, if_neg Bool.false_ne_true]
  refine Option.filter_eq_some_iff.2 ⟨rfl, ?_⟩
  rcases Nat.eq_zero_or_pos n with rfl | hn
  · rfl
  · obtain ⟨c, s, hdigits, -, hzero⟩ := exists_digits_eq_cons n
    simp [hdigits, hzero hn]

/-- A number that is written by its digits, with a minus sign only if it is not zero. -/
theorem numberOf_digits {minus : Bool} {n : Nat} (hn : minus = true → 0 < n) :
    numberOf minus (Text.digits n) [] [] = .integer (if minus then -n else n) := by
  have hvalue : Nat.ofDigitChars 10 (Text.digits n) 0 = n :=
    Nat.ofDigitChars_toDigits (by decide) (by decide)
  rw [numberOf, hvalue, if_pos]
  rcases minus with - | -
  · rfl
  · have hne : n ≠ 0 := Nat.pos_iff_ne_zero.1 (hn rfl)
    simp [hne]

theorem readNumber?_of_readMinus {s : List Char} {minus : Bool} {n : Nat}
    (hs : readMinus s = (minus, Text.digits n ++ rest)) (hrest : EndsValue rest) :
    readNumber? s = some (numberOf minus (Text.digits n) [] [], rest) := by
  simp only [readNumber?, hs, readWhole?_digits n hrest, Option.bind_eq_bind, Option.bind_some,
    hrest.readFraction?, hrest.readExponent?, Option.pure_def]

theorem readMinus_of_ne {c : Char} {s : List Char} (hc : c ≠ '-') :
    readMinus (c :: s) = (false, c :: s) := by
  rw [readMinus]
  exact fun _ h ↦ hc (List.cons.inj h).1

/-- **An integer is read from its digits** where nothing comes after them that goes on with it. -/
theorem readNumber?_renderInteger (n : Int) (hrest : EndsValue rest) :
    readNumber? (renderInteger n ++ rest) = some (.integer n, rest) := by
  by_cases hn : n < 0
  · have hs : readMinus (renderInteger n ++ rest) = (true, Text.digits n.natAbs ++ rest) := by
      rw [renderInteger, if_pos hn]
      rfl
    rw [readNumber?_of_readMinus hs hrest, numberOf_digits fun _ ↦ by omega, if_pos rfl]
    congr 3
    omega
  · have hs : readMinus (renderInteger n ++ rest) = (false, Text.digits n.natAbs ++ rest) := by
      obtain ⟨c, s, hdigits, hc, -⟩ := exists_digits_eq_cons n.natAbs
      have hminus : c ≠ '-' := fun h ↦ absurd (h ▸ hc) (by decide)
      rw [renderInteger, if_neg hn, hdigits]
      exact readMinus_of_ne hminus
    have hplus : false = true → 0 < n.natAbs := fun h ↦ absurd h Bool.false_ne_true
    rw [readNumber?_of_readMinus hs hrest, numberOf_digits hplus, if_neg Bool.false_ne_true]
    congr 3
    omega

/-- A token that starts with a minus sign or a digit is a number. -/
theorem readToken?_of_number {c : Char} (hc : c = '-' ∨ c.isDigit = true) (s : List Char) :
    readToken? (c :: s) = (readNumber? (c :: s)).map fun (v, rest) ↦ (.scalar v, rest) := by
  have hne : ∀ d : Char, d ≠ '-' → d.isDigit = false → c ≠ d := by
    rintro d hminus hdigit rfl
    rcases hc with rfl | hc
    · exact hminus rfl
    · rw [hc] at hdigit
      contradiction
  rw [readToken?]
  -- the other tokens start with other characters
  all_goals
    intros
    rename_i h
    exact hne _ (by decide) (by decide) (List.cons.inj h).1

theorem readToken?_renderInteger (n : Int) (hrest : EndsValue rest) :
    readToken? (renderInteger n ++ rest) = some (.scalar (.integer n), rest) := by
  obtain ⟨c, s, hs, hc⟩ : ∃ c s, renderInteger n = c :: s ∧ (c = '-' ∨ c.isDigit = true) := by
    rw [renderInteger]
    split
    · exact ⟨'-', _, rfl, Or.inl rfl⟩
    · obtain ⟨c, s, hdigits, hc, -⟩ := exists_digits_eq_cons n.natAbs
      exact ⟨c, s, hdigits, Or.inr hc⟩
  have hread := readNumber?_renderInteger n hrest
  rw [hs, List.cons_append] at hread ⊢
  rw [readToken?_of_number hc, hread]
  rfl

end

end TileRobot.Json
