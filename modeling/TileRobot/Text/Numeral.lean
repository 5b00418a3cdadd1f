/-!
# Decimal numerals

Reading of natural numbers below a limit. A numeral is one or more of the digits `0` to `9`, led by
a plus sign if the writer likes. Leading zeros change nothing. A value at or above the limit is
refused, however it is written.
-/

namespace TileRobot.Text

/-- The first number that has no place in 64 bits. -/
def limit64 : Nat := 0x1_0000_0000_0000_0000

/-- The value of a run of decimal digits, or `none` if the run is empty or has another character. -/
def readDigits? (s : List Char) : Option Nat :=
  if s ≠ [] ∧ s.all Char.isDigit then some (Nat.ofDigitChars 10 s 0) else none

/-- The value of a numeral, if it is below `limit`. -/
def readNat? (limit : Nat) (s : List Char) : Option Nat :=
  (readDigits? (if s.head? = some '+' then s.tail else s)).filter (· < limit)

/-- The digits that write a number. -/
def digits (n : Nat) : List Char := Nat.toDigits 10 n

theorem isDigit_of_mem_digits {n : Nat} {c : Char} (hc : c ∈ digits n) : c.isDigit = true :=
  Nat.isDigit_of_mem_toDigits (by decide) (by decide) hc

theorem notMem_digits {c : Char} (h : c.isDigit = false) (n : Nat) : c ∉ digits n := by
  intro hc
  rw [isDigit_of_mem_digits hc] at h
  contradiction

theorem readDigits?_digits (n : Nat) : readDigits? (digits n) = some n := by
  have hall : (digits n).all Char.isDigit = true :=
    List.all_eq_true.2 fun c hc ↦ isDigit_of_mem_digits hc
  have hne : digits n ≠ [] := Nat.toDigits_ne_nil
  rw [readDigits?, if_pos ⟨hne, hall⟩]
  simp [digits]

theorem head?_digits_ne (n : Nat) (c : Char) (h : c.isDigit = false) :
    (digits n).head? ≠ some c := fun e ↦
  notMem_digits h n (List.mem_of_mem_head? e)

/-- A number below the limit is read back from its digits. -/
theorem readNat?_digits {limit n : Nat} (h : n < limit) :
    readNat? limit (digits n) = some n := by
  rw [readNat?, if_neg (head?_digits_ne n '+' (by decide)), readDigits?_digits]
  simp [h]

end TileRobot.Text
