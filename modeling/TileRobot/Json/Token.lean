import TileRobot.Json.Value
/-!
# The tokens of JSON text

A JSON text is a row of tokens with blanks between them: brackets, separators, and values that have
no parts. The reader of tokens is strict. It takes no leading zeros, no raw control characters in
strings and no blanks but space, tab and line ends.

Two escapes in a row that stand for the halves of a surrogate pair are one character (`joinPairs`);
any other surrogate stays alone.

## Implementation notes

As everywhere in `Json`, the behaviour is one that the solver expects of a library (see
`Json.Value`).
-/

namespace TileRobot.Json

/-- A token of JSON text. -/
inductive Token where
  /-- The bracket that opens an array. -/
  | openArray
  /-- The bracket that closes an array. -/
  | closeArray
  /-- The brace that opens an object. -/
  | openObject
  /-- The brace that closes an object. -/
  | closeObject
  /-- The mark between the elements of an array or object. -/
  | comma
  /-- The mark between the name and the value of a field. -/
  | colon
  /-- A value without parts. -/
  | scalar (v : Value)

/-- Whether a character may stand between tokens. -/
def isSpace (c : Char) : Bool := c == ' ' || c == '\t' || c == '\n' || c == '\r'

/-! ### Strings -/

/-- The value of a digit to the base 16. -/
def hexDigit? (c : Char) : Option Nat :=
  if c.isDigit then some (c.toNat - '0'.toNat)
  else if 'a' ≤ c ∧ c ≤ 'f' then some (c.toNat - 'a'.toNat + 10)
  else if 'A' ≤ c ∧ c ≤ 'F' then some (c.toNat - 'A'.toNat + 10)
  else none

/-- The number that four digits to the base 16 write. -/
def hexNumber? (a b c d : Char) : Option Nat := do
  return (((← hexDigit? a) * 16 + (← hexDigit? b)) * 16 + (← hexDigit? c)) * 16 + (← hexDigit? d)

/-- Whether a number is the first half of a surrogate pair. -/
def isHighSurrogate (n : Nat) : Bool := 0xD800 ≤ n && n ≤ 0xDBFF

/-- Whether a number is the second half of a surrogate pair. -/
def isLowSurrogate (n : Nat) : Bool := 0xDC00 ≤ n && n ≤ 0xDFFF

/-- The letter that an escape with a number stands for. -/
def Letter.ofUnit (n : Nat) : Letter :=
  if isHighSurrogate n || isLowSurrogate n then .lone n else .char (Char.ofNat n)

/-- The letters after the halves of surrogate pairs that follow each other have been joined. -/
def joinPairs : List Letter → List Letter
  | .lone high :: .lone low :: l =>
    if isHighSurrogate high && isLowSurrogate low then
      .char (Char.ofNat (0x10000 + (high - 0xD800) * 0x400 + (low - 0xDC00))) :: joinPairs l
    else .lone high :: joinPairs (.lone low :: l)
  | a :: l => a :: joinPairs l
  | [] => []

/-- The character that a backslash and `c` stand for. -/
def escaped? (c : Char) : Option Char :=
  match c with
  | '\x22' => some '\x22'
  | '\\' => some '\\'
  | '/' => some '/'
  | 'b' => some '\x08'
  | 'f' => some '\x0c'
  | 'n' => some '\n'
  | 'r' => some '\r'
  | 't' => some '\t'
  | _ => none

/-- Reads a string up to its closing quote, and gives its letters and what follows the quote. -/
def readLetters? : List Char → Option (List Letter × List Char)
  | '\x22' :: s => some ([], s)
  | '\\' :: 'u' :: a :: b :: c :: d :: s => do
    let n ← hexNumber? a b c d
    let (l, rest) ← readLetters? s
    return (Letter.ofUnit n :: l, rest)
  | '\\' :: e :: s => do
    let c ← escaped? e
    let (l, rest) ← readLetters? s
    return (.char c :: l, rest)
  | c :: s =>
    if c.toNat < 0x20 then none
    else (readLetters? s).map fun (l, rest) ↦ (.char c :: l, rest)
  | [] => none

/-! ### Numbers -/

/-- The digits at the start of a text, if there are any, and what follows them. -/
def readDigits? (s : List Char) : Option (List Char × List Char) :=
  let digits := s.takeWhile Char.isDigit
  if digits.isEmpty then none else some (digits, s.dropWhile Char.isDigit)

/-- The fraction at the start of a text, empty if there is none, and what follows it. -/
def readFraction? (s : List Char) : Option (List Char × List Char) :=
  match s with
  | '.' :: s => (readDigits? s).map fun (digits, rest) ↦ ('.' :: digits, rest)
  | s => some ([], s)

/-- The sign at the start of a text, if there is one, and what follows it. -/
def readSign (s : List Char) : List Char × List Char :=
  match s with
  | '+' :: s => (['+'], s)
  | '-' :: s => (['-'], s)
  | s => ([], s)

/-- The exponent at the start of a text, empty if there is none, and what follows it. -/
def readExponent? (s : List Char) : Option (List Char × List Char) :=
  match s with
  | c :: s =>
    if c = 'e' ∨ c = 'E' then
      let (sign, s) := readSign s
      (readDigits? s).map fun (digits, rest) ↦ (c :: sign ++ digits, rest)
    else some ([], c :: s)
  | [] => some ([], [])

/-- The digits before the point at the start of a text, and what follows them. A zero does not lead
other digits. -/
def readWhole? (s : List Char) : Option (List Char × List Char) :=
  (readDigits? s).filter fun (digits, _) ↦ digits == ['0'] || digits.head? != some '0'

/-- The minus sign at the start of a text, if there is one, and what follows it. -/
def readMinus (s : List Char) : Bool × List Char :=
  match s with
  | '-' :: s => (true, s)
  | s => (false, s)

/-- The number that its parts write. -/
def numberOf (minus : Bool) (whole fraction exponent : List Char) : Value :=
  let n := Nat.ofDigitChars 10 whole 0
  if fraction.isEmpty && exponent.isEmpty && !(minus && n == 0) then
    .integer (if minus then -n else n)
  else .decimal ((if minus then ['-'] else []) ++ whole ++ fraction ++ exponent)

/-- The number at the start of a text and what follows it. -/
def readNumber? (s : List Char) : Option (Value × List Char) := do
  let (whole, s₁) ← readWhole? (readMinus s).2
  let (fraction, s₂) ← readFraction? s₁
  let (exponent, s₃) ← readExponent? s₂
  return (numberOf (readMinus s).1 whole fraction exponent, s₃)

/-! ### Texts -/

/-- The token at the start of a text and what follows it. -/
def readToken? (s : List Char) : Option (Token × List Char) :=
  match s with
  | '[' :: s => some (.openArray, s)
  | ']' :: s => some (.closeArray, s)
  | '\x7b' :: s => some (.openObject, s)
  | '\x7d' :: s => some (.closeObject, s)
  | ',' :: s => some (.comma, s)
  | ':' :: s => some (.colon, s)
  | 'n' :: 'u' :: 'l' :: 'l' :: s => some (.scalar .null, s)
  | 't' :: 'r' :: 'u' :: 'e' :: s => some (.scalar (.bool true), s)
  | 'f' :: 'a' :: 'l' :: 's' :: 'e' :: s => some (.scalar (.bool false), s)
  | '\x22' :: s => (readLetters? s).map fun (l, rest) ↦ (.scalar (.string (joinPairs l)), rest)
  | s => (readNumber? s).map fun (v, rest) ↦ (.scalar v, rest)

theorem length_le_of_readLetters? {s rest : List Char} {l : List Letter}
    (h : readLetters? s = some (l, rest)) : rest.length ≤ s.length := by
  fun_induction readLetters? s generalizing l rest with
  | case1 s =>
    cases h
    simp
  | case2 a b c d s ih =>
    simp only [Option.bind_eq_bind, Option.bind_eq_some_iff] at h
    obtain ⟨n, -, ⟨l', rest'⟩, hr, he⟩ := h
    cases he
    have := ih hr
    simp only [List.length_cons]
    omega
  | case3 e s _ ih =>
    simp only [Option.bind_eq_bind, Option.bind_eq_some_iff] at h
    obtain ⟨c, -, ⟨l', rest'⟩, hr, he⟩ := h
    cases he
    have := ih hr
    simp only [List.length_cons]
    omega
  | case4 => contradiction
  | case5 c s _ _ _ _ ih =>
    obtain ⟨⟨l', rest'⟩, hr, he⟩ := Option.map_eq_some_iff.1 h
    cases he
    have := ih hr
    simp only [List.length_cons]
    omega
  | case6 => contradiction

theorem length_lt_of_readDigits? {s digits rest : List Char}
    (h : readDigits? s = some (digits, rest)) : rest.length < s.length := by
  simp only [readDigits?] at h
  split at h
  · contradiction
  · rename_i hne
    cases h
    have hsplit := congrArg List.length
      (List.takeWhile_append_dropWhile (p := Char.isDigit) (l := s))
    rw [List.length_append] at hsplit
    have hpos := List.length_pos_iff.2
      (fun e ↦ hne (by rw [e]; rfl) : s.takeWhile Char.isDigit ≠ [])
    omega

theorem length_le_of_readFraction? {s fraction rest : List Char}
    (h : readFraction? s = some (fraction, rest)) : rest.length ≤ s.length := by
  simp only [readFraction?] at h
  split at h
  · obtain ⟨⟨d, r⟩, hd, he⟩ := Option.map_eq_some_iff.1 h
    cases he
    have := length_lt_of_readDigits? hd
    simp only [List.length_cons]
    omega
  · cases h
    exact Nat.le_refl _

theorem length_readSign_le (s : List Char) : (readSign s).2.length ≤ s.length := by
  simp only [readSign]
  split <;> simp

theorem length_le_of_readExponent? {s exponent rest : List Char}
    (h : readExponent? s = some (exponent, rest)) : rest.length ≤ s.length := by
  cases s with
  | nil =>
    cases h
    exact Nat.le_refl _
  | cons c s =>
    simp only [readExponent?] at h
    split at h
    · obtain ⟨⟨d, r⟩, hd, he⟩ := Option.map_eq_some_iff.1 h
      cases he
      have h₁ := length_lt_of_readDigits? hd
      have h₂ := length_readSign_le s
      simp only [List.length_cons]
      omega
    · cases h
      exact Nat.le_refl _

theorem length_readMinus_le (s : List Char) : (readMinus s).2.length ≤ s.length := by
  simp only [readMinus]
  split <;> simp

theorem length_lt_of_readNumber? {s rest : List Char} {v : Value}
    (h : readNumber? s = some (v, rest)) : rest.length < s.length := by
  simp only [readNumber?, Option.bind_eq_bind, Option.bind_eq_some_iff, Prod.exists] at h
  obtain ⟨whole, s₁, h₁, fraction, s₂, h₂, exponent, s₃, h₃, h₄⟩ := h
  cases h₄
  have l₀ := length_readMinus_le s
  have l₁ := length_lt_of_readDigits? (Option.filter_eq_some_iff.1 h₁).1
  have l₂ := length_le_of_readFraction? h₂
  have l₃ := length_le_of_readExponent? h₃
  omega

/-- Every token takes up a part of the text. -/
theorem length_lt_of_readToken? {s rest : List Char} {t : Token}
    (h : readToken? s = some (t, rest)) : rest.length < s.length := by
  simp only [readToken?] at h
  split at h
  case h_10 =>
    obtain ⟨⟨l, r⟩, hl, he⟩ := Option.map_eq_some_iff.1 h
    cases he
    have := length_le_of_readLetters? hl
    simp only [List.length_cons]
    omega
  case h_11 =>
    obtain ⟨⟨v, r⟩, hv, he⟩ := Option.map_eq_some_iff.1 h
    cases he
    exact length_lt_of_readNumber? hv
  all_goals
    cases h
    simp only [List.length_cons]
    omega

/-- The tokens of a text. -/
def readTokens? (s : List Char) : Option (List Token) :=
  match s with
  | [] => some []
  | c :: s =>
    if isSpace c then readTokens? s
    else
      match _h : readToken? (c :: s) with
      | none => none
      | some (t, rest) => (readTokens? rest).map (t :: ·)
termination_by s.length
decreasing_by
  · exact Nat.lt_succ_self _
  · exact length_lt_of_readToken? _h

end TileRobot.Json
