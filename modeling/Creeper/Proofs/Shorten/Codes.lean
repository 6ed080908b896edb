/-
Which hash values have the same short code.

`base62_encode` collects the digits of a hash least significant first,
fills up with zeros in front and cuts at the back, so a code is a
numeral of `Lib/Radix.lean` in the digits `BASE62_CHARS`
(`base62OfHash_eq`). Hashes of at least six digits that agree modulo
62^6 share a code and others do not, but one of fewer digits has the
code of another hash: `codesFaithful_iff` says exactly which pairs this
is true of.
-/
import Creeper.Lib.Radix
import Creeper.Shorten

namespace Creeper

open Lib

-- ================================================================== digits

/-- `BASE62_CHARS[d]` -/
def base62Char (d : Nat) : Char := base62Chars.getD d '0'

/-- The digit a character stands for. -/
def base62Value (c : Char) : Nat := base62Chars.idxOf c

/-- Each digit has a character of its own. -/
theorem base62Value_char {d : Nat} (hd : d < 62) :
    base62Value (base62Char d) = d := by
  have hnodup : base62Chars.Nodup := by decide +kernel
  have hlength : d < base62Chars.length := hd
  unfold base62Value base62Char
  rw [List.getD_eq_getElem?_getD, List.getElem?_eq_getElem hlength,
    Option.getD_some]
  exact hnodup.idxOf_getElem d hlength

/-- The loop writes the digits of the number. -/
theorem base62Digits_eq (num : Nat) :
    base62Digits num = (Nat.digits 62 num).map base62Char := by
  induction num using Nat.strongRecOn with
  | _ num ih =>
      rw [base62Digits]
      split
      · next hzero =>
        rw [hzero]
        rfl
      · next hpos =>
        rw [Nat.digits_def' (by omega) (by omega), List.map_cons,
          ih (num / 62) (by omega)]
        rfl

/-- A code is the numeral of the hash, filled up at the front. -/
theorem base62OfHash_eq (num : UInt64) :
    base62OfHash num
      = (frontPadded 62 6 num.toNat).map base62Char := by
  unfold base62OfHash frontPadded shortUrlLength
  rw [base62Digits_eq, List.map_take, List.leftpad, List.leftpad,
    List.map_append, List.map_replicate, List.length_map]
  rfl

/-- What a code says can be read off it. -/
theorem map_base62Value (num : UInt64) :
    (base62OfHash num).map base62Value = frontPadded 62 6 num.toNat := by
  have hdigits : (frontPadded 62 6 num.toNat).map
      (base62Value ∘ base62Char) = (frontPadded 62 6 num.toNat).map id := by
    apply List.map_congr_left
    intro d hd
    exact base62Value_char (mem_frontPadded (by omega) hd)
  rw [base62OfHash_eq, List.map_map, hdigits, List.map_id]

/-- Codes are equal when the numerals are. -/
theorem base62OfHash_eq_iff (n m : UInt64) :
    base62OfHash n = base62OfHash m
      ↔ frontPadded 62 6 n.toNat = frontPadded 62 6 m.toNat := by
  constructor
  · intro h
    rw [← map_base62Value, h, map_base62Value]
  · intro h
    rw [base62OfHash_eq, h, base62OfHash_eq]

-- =================================================================== codes

/-- The codes of two hashes are what they should be: different for
different hashes below 62^6, and in general equal exactly for hashes
that agree modulo 62^6. -/
def CodesFaithful (n m : UInt64) : Prop :=
  (n.toNat < 62 ^ 6 → m.toNat < 62 ^ 6 → n ≠ m →
      base62OfHash n ≠ base62OfHash m)
    ∧ (base62OfHash n = base62OfHash m
        ↔ n.toNat % 62 ^ 6 = m.toNat % 62 ^ 6)

/-- The second part includes the first. -/
theorem codesFaithful_iff_faithful (n m : UInt64) :
    CodesFaithful n m ↔ Faithful 62 6 n.toNat m.toNat := by
  unfold CodesFaithful Faithful
  rw [base62OfHash_eq_iff]
  apply and_iff_right_of_imp
  intro hiff hn hm hne heq
  have hmod := hiff.mp ((base62OfHash_eq_iff n m).mp heq)
  rw [Nat.mod_eq_of_lt hn, Nat.mod_eq_of_lt hm] at hmod
  exact hne (UInt64.toNat_inj.mp hmod)

/-- The codes of two hashes are what they should be exactly when neither
hash is positive, below 62^5, and confused with the other. -/
theorem codesFaithful_iff (n m : UInt64) :
    CodesFaithful n m
      ↔ ¬ Confused 62 5 n.toNat m.toNat ∧ ¬ Confused 62 5 m.toNat n.toNat := by
  rw [codesFaithful_iff_faithful]
  exact frontPadded_eq_iff (by omega) n.toNat m.toNat

/-- The hash 1 and the hash 62^5 have one code. -/
theorem codes_collide :
    base62OfHash 1 = "000001".toList
      ∧ base62OfHash 916132832 = "000001".toList
      ∧ ¬ CodesFaithful 1 916132832 := by
  have hone : base62OfHash 1 = "000001".toList := by decide +kernel
  have hmoved : base62OfHash 916132832 = "000001".toList := by
    decide +kernel
  refine ⟨hone, hmoved, fun h => ?_⟩
  exact h.1 (by decide) (by decide) (by decide) (hone.trans hmoved.symm)

end Creeper
