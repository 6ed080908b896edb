/-
Decimal numerals as character lists: what is written is read back.

The numerals are the ones the core library writes (`Nat.toDigits`) and
the value of a digit string is its `Nat.ofDigitChars`; only the check
that a string is a numeral at all, and the sign, are added here.
-/
import Mathlib.Data.List.Basic

namespace Creeper.Lib

-- ========================================================= natural numbers

/-- The decimal numeral of a natural number. -/
def decimal (n : Nat) : List Char := Nat.toDigits 10 n

/-- The value of a nonempty string of digits. -/
def readDecimal (s : List Char) : Option Nat :=
  if s ≠ [] ∧ s.all Char.isDigit then some (Nat.ofDigitChars 10 s 0)
  else none

theorem decimal_ne_nil (n : Nat) : decimal n ≠ [] := Nat.toDigits_ne_nil

/-- A numeral is made of digits. -/
theorem isDigit_of_mem_decimal {n : Nat} {c : Char} (h : c ∈ decimal n) :
    c.isDigit :=
  Nat.isDigit_of_mem_toDigits (by decide) (by decide) h

/-- A character that is no digit is in no numeral. -/
theorem not_mem_decimal {c : Char} (hc : c.isDigit = false) (n : Nat) :
    c ∉ decimal n := by
  intro hmem
  rw [isDigit_of_mem_decimal hmem] at hc
  cases hc

@[simp] theorem readDecimal_decimal (n : Nat) :
    readDecimal (decimal n) = some n := by
  have hall : (decimal n).all Char.isDigit = true :=
    List.all_eq_true.mpr fun _ hc => isDigit_of_mem_decimal hc
  rw [readDecimal, if_pos ⟨decimal_ne_nil n, hall⟩, decimal,
    Nat.ofDigitChars_ten_toDigits]

-- ================================================================ integers

/-- The decimal numeral of an integer, with a minus sign where it is
negative. -/
def decimalInt : Int → List Char
  | .ofNat n => decimal n
  | .negSucc n => '-' :: decimal (n + 1)

/-- The value of a numeral with an optional minus sign. -/
def readDecimalInt : List Char → Option Int
  | '-' :: s => (readDecimal s).map fun n => -(n : Int)
  | s => (readDecimal s).map fun n => (n : Int)

@[simp] theorem readDecimalInt_decimalInt (i : Int) :
    readDecimalInt (decimalInt i) = some i := by
  cases i with
  | ofNat n =>
      have hmatch : readDecimalInt (decimal n)
          = (readDecimal (decimal n)).map fun n => (n : Int) := by
        have hminus := not_mem_decimal (c := '-') (by decide) n
        unfold readDecimalInt
        split
        · next s heq => exact absurd (by rw [heq]; simp) hminus
        · rfl
      rw [decimalInt, hmatch, readDecimal_decimal]
      rfl
  | negSucc n =>
      simp [decimalInt, readDecimalInt, Int.negSucc_eq]

/-- What a numeral is made of. -/
theorem mem_decimalInt {c : Char} {i : Int} (h : c ∈ decimalInt i) :
    c.isDigit ∨ c = '-' := by
  cases i with
  | ofNat n => exact Or.inl (isDigit_of_mem_decimal h)
  | negSucc n =>
      rcases List.mem_cons.mp h with rfl | h
      · exact Or.inr rfl
      · exact Or.inl (isDigit_of_mem_decimal h)

/-- A character that is no digit and no minus is in no numeral. -/
theorem not_mem_decimalInt {c : Char} (hc : c.isDigit = false)
    (hminus : c ≠ '-') (i : Int) : c ∉ decimalInt i := by
  cases i with
  | ofNat n => exact not_mem_decimal hc n
  | negSucc n => simp [decimalInt, hminus, not_mem_decimal hc]

end Creeper.Lib
