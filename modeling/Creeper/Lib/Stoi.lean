/-
The `int` of C++, and the numerals `std::stoi` reads.

`CInt` is a 32-bit `int` as the integer it is, with its range. `stoi`
reads the longest numeral at the front of a string, after any white
space, and says how many characters it used; it has no result where
`std::stoi` throws, be it for want of a digit or of range.

`stoi_decimalInt` is the round trip with `std::to_string`: a numeral
written for an `int` is read back whole.
-/
import Mathlib.Order.Defs.LinearOrder
import Mathlib.Data.Int.Order.Basic
import Mathlib.Data.List.TakeWhile
import Creeper.Lib.Decimal

namespace Creeper.Lib

-- ================================================================ the type

/-- `INT_MIN` -/
def intMin : Int := -2147483648

/-- `INT_MAX` -/
def intMax : Int := 2147483647

/-- An `int`. -/
abbrev CInt := { i : Int // intMin ≤ i ∧ i ≤ intMax }

namespace CInt

/-- The order of the numbers. -/
instance : LE CInt := ⟨fun a b => a.val ≤ b.val⟩

/-- `int` literals. -/
def ofInt (i : Int) (h : intMin ≤ i ∧ i ≤ intMax := by decide) : CInt :=
  ⟨i, h⟩

/-- Zero. -/
def zero : CInt := .ofInt 0

/-- Nothing comes after `INT_MAX`. -/
theorem val_ne_max {k id : CInt} (h : id.val = k.val + 1) :
    k.val ≠ intMax := by
  have hmax := id.property.2
  omega

theorem compare_eq (a b : CInt) : compare a b = compare a.val b.val := rfl

instance : Std.TransOrd CInt where
  eq_swap := fun {a b} => by
    rw [compare_eq, compare_eq]
    exact Std.OrientedOrd.eq_swap
  isLE_trans := fun {a b c} => by
    rw [compare_eq, compare_eq, compare_eq]
    exact Std.TransOrd.isLE_trans

instance : Std.LawfulEqOrd CInt where
  compare_self := fun {a} => by
    rw [compare_eq]
    exact Std.ReflOrd.compare_self
  eq_of_compare := fun {a b} h => by
    rw [compare_eq] at h
    exact Subtype.ext (Std.LawfulEqOrd.eq_of_compare h)

end CInt

-- ==================================================================== stoi

/-- `std::isspace` in the C locale. -/
def isSpace (c : Char) : Bool :=
  c = ' ' || (9 ≤ c.toNat && c.toNat ≤ 13)

/-- The sign in front of a numeral, and what comes after it. -/
def readSign : List Char → Int × List Char
  | '-' :: s => (-1, s)
  | '+' :: s => (1, s)
  | s => (1, s)

/-- `std::stoi`: the value, and the number of characters it took. -/
def stoi (s : List Char) : Option (CInt × Nat) :=
  let (sign, rest) := readSign (s.dropWhile isSpace)
  let digits := rest.takeWhile Char.isDigit
  let value := sign * (Nat.ofDigitChars 10 digits 0 : Int)
  if digits = [] then none
  else if h : intMin ≤ value ∧ value ≤ intMax then
    some (⟨value, h⟩, s.length - (rest.length - digits.length))
  else none

/-- The value of a string that is a numeral from one end to the other. -/
def numeral (s : List Char) : Option Int :=
  if (readSign s).2 ≠ [] ∧ (readSign s).2.all Char.isDigit then
    some ((readSign s).1 * (Nat.ofDigitChars 10 (readSign s).2 0 : Int))
  else none

/-- A numeral of digits only is read whole. -/
theorem stoi_of_digits {sign : Int} {s digits : List Char}
    (hspace : s.dropWhile isSpace = s) (hsign : readSign s = (sign, digits))
    (hne : digits ≠ []) (hdigits : digits.all Char.isDigit)
    (hrange : intMin ≤ sign * (Nat.ofDigitChars 10 digits 0 : Int)
      ∧ sign * (Nat.ofDigitChars 10 digits 0 : Int) ≤ intMax) :
    stoi s = some (⟨_, hrange⟩, s.length) := by
  have htake : digits.takeWhile Char.isDigit = digits := by
    rw [List.takeWhile_eq_self_iff]
    exact fun c hc => List.all_eq_true.mp hdigits c hc
  unfold stoi
  rw [hspace, hsign]
  simp only [htake]
  rw [if_neg hne, dif_pos hrange, Nat.sub_self, Nat.sub_zero]

/-- The value of a numeral's digits. -/
theorem ofDigitChars_decimal (n : Nat) :
    Nat.ofDigitChars 10 (decimal n) 0 = n :=
  Nat.ofDigitChars_ten_toDigits ..

/-- A digit is no white space and no sign. -/
theorem isSpace_of_isDigit {c : Char} (h : c.isDigit = true) :
    isSpace c = false ∧ c ≠ '-' ∧ c ≠ '+' := by
  have hfirst : '0'.toNat ≤ c.toNat := (Char.isDigit_iff_toNat.mp h).1
  have hzero : '0'.toNat = 48 := rfl
  refine ⟨?_, ?_, ?_⟩
  · have hblank : c ≠ ' ' := by
      intro heq
      subst heq
      revert hfirst
      decide
    have hcontrol : ¬ c.toNat ≤ 13 := by omega
    unfold isSpace
    rw [decide_eq_false hblank, decide_eq_false hcontrol, Bool.and_false]
    rfl
  · intro heq
    subst heq
    revert hfirst
    decide
  · intro heq
    subst heq
    revert hfirst
    decide

/-- A numeral of a natural number has no white space and no sign in
front. -/
theorem decimal_cons (n : Nat) :
    ∃ c s, decimal n = c :: s ∧ isSpace c = false ∧ c ≠ '-' ∧ c ≠ '+' := by
  cases hs : decimal n with
  | nil => exact absurd hs (decimal_ne_nil n)
  | cons c s =>
      have hdigit : c.isDigit = true :=
        isDigit_of_mem_decimal (n := n) (by rw [hs]; exact List.mem_cons_self ..)
      exact ⟨c, s, rfl, isSpace_of_isDigit hdigit⟩

/-- What `std::to_string` writes for an `int`, `std::stoi` reads back,
and whole. -/
@[simp] theorem stoi_decimalInt (i : CInt) :
    stoi (decimalInt i.val) = some (i, (decimalInt i.val).length) := by
  obtain ⟨i, hrange⟩ := i
  cases i with
  | ofNat n =>
      obtain ⟨c, s, hcons, hspace, hminus, hplus⟩ := decimal_cons n
      have hsign : readSign (decimal n) = (1, decimal n) := by
        rw [hcons]
        unfold readSign
        split
        · next heq => exact absurd (List.cons.inj heq).1 hminus
        · next heq => exact absurd (List.cons.inj heq).1 hplus
        · rfl
      have hdrop : (decimal n).dropWhile isSpace = decimal n := by
        rw [hcons, List.dropWhile_cons, if_neg (by rw [hspace]; decide)]
      have hvalue : 1 * (Nat.ofDigitChars 10 (decimal n) 0 : Int) = Int.ofNat n := by
        rw [ofDigitChars_decimal, Int.one_mul]
        rfl
      have hread := stoi_of_digits hdrop hsign (decimal_ne_nil n)
        (List.all_eq_true.mpr fun c hc => isDigit_of_mem_decimal hc)
        (by rw [hvalue]; exact hrange)
      rw [decimalInt, hread]
      simp only [hvalue]
  | negSucc n =>
      have hsign : readSign ('-' :: decimal (n + 1)) = (-1, decimal (n + 1)) :=
        rfl
      have hdrop : ('-' :: decimal (n + 1)).dropWhile isSpace
          = '-' :: decimal (n + 1) := rfl
      have hvalue : -1 * (Nat.ofDigitChars 10 (decimal (n + 1)) 0 : Int)
          = Int.negSucc n := by
        rw [ofDigitChars_decimal]
        omega
      have hread := stoi_of_digits hdrop hsign (decimal_ne_nil (n + 1))
        (List.all_eq_true.mpr fun c hc => isDigit_of_mem_decimal hc)
        (by rw [hvalue]; exact hrange)
      rw [decimalInt, hread]
      simp only [hvalue]

/-- There is no white space in front of a numeral. -/
theorem dropWhile_of_numeral {s : List Char} {v : Int}
    (h : numeral s = some v) : s.dropWhile isSpace = s := by
  unfold numeral at h
  cases s with
  | nil => rfl
  | cons c s =>
      have hspace : isSpace c = false := by
        unfold readSign at h
        split at h
        · next heq =>
          rw [(List.cons.inj heq).1]
          rfl
        · next heq =>
          rw [(List.cons.inj heq).1]
          rfl
        · split at h
          · next hdigits =>
            rw [List.all_cons, Bool.and_eq_true] at hdigits
            exact (isSpace_of_isDigit hdigits.2.1).1
          · cases h
      rw [List.dropWhile_cons, if_neg (by rw [hspace]; simp)]

/-- A numeral is read as its value, if it is read. -/
theorem stoi_of_numeral {s : List Char} {v : Int} {i : CInt} {k : Nat}
    (h : numeral s = some v) (hstoi : stoi s = some (i, k)) : i.val = v := by
  have hspace := dropWhile_of_numeral h
  unfold numeral at h
  split at h
  · next hdigits =>
    obtain ⟨hne, hall⟩ := hdigits
    cases h
    have htake : (readSign s).2.takeWhile Char.isDigit = (readSign s).2 := by
      rw [List.takeWhile_eq_self_iff]
      exact fun c hc => List.all_eq_true.mp hall c hc
    unfold stoi at hstoi
    rw [hspace] at hstoi
    simp only [htake, if_neg hne] at hstoi
    split at hstoi
    · cases hstoi
      rfl
    · cases hstoi
  · cases h

/-- The numeral of an `int` has no more than eleven characters. -/
theorem length_decimalInt_le (i : CInt) :
    (decimalInt i.val).length ≤ 11 := by
  obtain ⟨i, hmin, hmax⟩ := i
  unfold intMin at hmin
  unfold intMax at hmax
  have hdigits : ∀ n, n < 10 ^ 10 → (decimal n).length ≤ 10 :=
    fun n hn => (Nat.length_toDigits_le_iff (by decide) (by decide)).mpr hn
  cases i with
  | ofNat n =>
      have hlength := hdigits n (by simp at hmax; omega)
      rw [decimalInt]
      omega
  | negSucc n =>
      have hlength := hdigits (n + 1) (by omega)
      rw [decimalInt, List.length_cons]
      omega

/-- Numerals of different numbers differ. -/
theorem decimalInt_injective : Function.Injective decimalInt := by
  intro i j h
  have hread := congrArg readDecimalInt h
  simpa using hread

end Creeper.Lib
