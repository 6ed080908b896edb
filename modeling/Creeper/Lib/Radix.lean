/-
Numerals of a fixed width, least significant digit first, filled up at
the front.

The front of such a numeral is its low end, so filling it up with zeros
multiplies the number: `ofDigits_frontPadded` says by how much. A number
that fills the width, or is zero, keeps its remainder
(`ofDigits_frontPadded_full`); a `Short` one is moved up until it fills
the width (`short_value`). `frontPadded_eq_iff` draws the line: the
numerals of two numbers agree exactly when the numbers do modulo the
width, unless one is short and `Confused` with the other.
-/
import Mathlib.Data.Nat.Digits.Lemmas

namespace Creeper.Lib

variable {b k n m r : Nat}

-- ============================================================== the numeral

/-- The digits of a number, zeros in front of them, cut to the width. -/
def frontPadded (b width n : Nat) : List Nat :=
  ((Nat.digits b n).leftpad width 0).take width

/-- The zeros in front. -/
def padding (b width n : Nat) : Nat := width - (Nat.digits b n).length

theorem frontPadded_length (b width n : Nat) :
    (frontPadded b width n).length = width := by
  unfold frontPadded
  rw [List.length_take, List.length_leftpad]
  omega

theorem mem_frontPadded {d : Nat} (hb : 1 < b) {width : Nat}
    (h : d ∈ frontPadded b width n) : d < b := by
  unfold frontPadded at h
  have hmem := List.mem_of_mem_take h
  rw [List.leftpad, List.mem_append, List.mem_replicate] at hmem
  rcases hmem with ⟨-, rfl⟩ | hdigit
  · omega
  · exact Nat.digits_lt_base hb hdigit

/-- What the numeral says, read as it is written. -/
theorem ofDigits_frontPadded (hb : 1 < b) (width n : Nat) :
    Nat.ofDigits b (frontPadded b width n)
      = n * b ^ padding b width n % b ^ width := by
  have hdigits : ∀ d ∈ (Nat.digits b n).leftpad width 0, d < b := by
    intro d hd
    rw [List.leftpad, List.mem_append, List.mem_replicate] at hd
    rcases hd with ⟨-, rfl⟩ | hdigit
    · omega
    · exact Nat.digits_lt_base hb hdigit
  have hvalue : Nat.ofDigits b ((Nat.digits b n).leftpad width 0)
      = n * b ^ padding b width n := by
    rw [List.leftpad, Nat.ofDigits_append, Nat.ofDigits_replicate_zero,
      List.length_replicate, Nat.ofDigits_digits, Nat.zero_add, Nat.mul_comm]
    rfl
  unfold frontPadded
  rw [← Nat.ofDigits_mod_pow_eq_ofDigits_take width (by omega) _ hdigits,
    hvalue]

/-- Numerals of one width are equal when they say the same. -/
theorem frontPadded_eq_iff_value (hb : 1 < b) (width n m : Nat) :
    frontPadded b width n = frontPadded b width m
      ↔ Nat.ofDigits b (frontPadded b width n)
        = Nat.ofDigits b (frontPadded b width m) := by
  constructor
  · intro h
    rw [h]
  · intro h
    apply Nat.ofDigits_inj_of_len_eq hb _ _ _ h
    · rw [frontPadded_length, frontPadded_length]
    · intro d hd
      exact mem_frontPadded hb hd
    · intro d hd
      exact mem_frontPadded hb hd

-- ============================================================ short numbers

/-- A number with fewer digits than the width. -/
def Short (b k n : Nat) : Prop := 0 < n ∧ n < b ^ k

/-- Any other number keeps its remainder. -/
theorem ofDigits_frontPadded_full (hb : 1 < b) (h : ¬ Short b k n) :
    Nat.ofDigits b (frontPadded b (k + 1) n) = n % b ^ (k + 1) := by
  rw [ofDigits_frontPadded hb]
  rcases Nat.eq_zero_or_pos n with rfl | hpos
  · simp
  · have hlong : ¬ (Nat.digits b n).length ≤ k := by
      rw [Nat.digits_length_le_iff hb]
      exact fun hlt => h ⟨hpos, hlt⟩
    have hpadding : padding b (k + 1) n = 0 := by
      unfold padding
      omega
    rw [hpadding, Nat.pow_zero, Nat.mul_one]

/-- A short number is moved up until it has all its digits. -/
theorem short_value (hb : 1 < b) (h : Short b k n) :
    0 < padding b (k + 1) n
      ∧ b ^ k ≤ n * b ^ padding b (k + 1) n
      ∧ n * b ^ padding b (k + 1) n < b ^ (k + 1)
      ∧ Nat.ofDigits b (frontPadded b (k + 1) n)
        = n * b ^ padding b (k + 1) n := by
  obtain ⟨hpos, hlt⟩ := h
  have hshort := (Nat.digits_length_le_iff hb n).mpr hlt
  have hsum : (Nat.digits b n).length + padding b (k + 1) n = k + 1 := by
    unfold padding
    omega
  have hpadding : 0 < padding b (k + 1) n := by omega
  have hupper : n * b ^ padding b (k + 1) n < b ^ (k + 1) := by
    have hdigits : n < b ^ (Nat.digits b n).length :=
      Nat.lt_base_pow_length_digits hb
    have hscaled := Nat.mul_lt_mul_of_pos_right hdigits
      (Nat.pow_pos (n := padding b (k + 1) n) (by omega : 0 < b))
    rwa [← Nat.pow_add, hsum] at hscaled
  have hlower : b ^ k ≤ n * b ^ padding b (k + 1) n := by
    have hdigits : b ^ (Nat.digits b n).length ≤ b * n :=
      Nat.base_pow_length_digits_le b n hb hpos.ne'
    have hscaled := Nat.mul_le_mul_right (b ^ padding b (k + 1) n) hdigits
    rw [← Nat.pow_add, hsum, Nat.pow_succ, Nat.mul_comm _ b,
      Nat.mul_assoc] at hscaled
    exact Nat.le_of_mul_le_mul_left hscaled (by omega)
  refine ⟨hpadding, hlower, hupper, ?_⟩
  rw [ofDigits_frontPadded hb, Nat.mod_eq_of_lt hupper]

/-- Its numeral is that of the one number with all its digits that it
can be moved up to. -/
theorem short_value_eq_iff (hb : 1 < b) (h : Short b k n)
    (hlower : b ^ k ≤ r) (hupper : r < b ^ (k + 1)) :
    Nat.ofDigits b (frontPadded b (k + 1) n) = r
      ↔ ∃ j, r = n * b ^ j := by
  obtain ⟨-, hlow, hup, hvalue⟩ := short_value hb h
  rw [hvalue]
  constructor
  · intro heq
    exact ⟨_, heq.symm⟩
  · intro hmoved
    obtain ⟨j, rfl⟩ := hmoved
    -- one place more or less would leave the range
    have hplaces : ∀ i j, b ^ k ≤ n * b ^ i → n * b ^ j < b ^ (k + 1) →
        j ≤ i := by
      intro i j hi hj
      apply Nat.le_of_not_lt
      intro hij
      have hmore : n * b ^ i * b ≤ n * b ^ j := by
        rw [Nat.mul_assoc, ← Nat.pow_succ]
        exact Nat.mul_le_mul_left n (Nat.pow_le_pow_right (by omega) hij)
      have hstart : b ^ (k + 1) ≤ n * b ^ i * b := by
        rw [Nat.pow_succ]
        exact Nat.mul_le_mul_right b hi
      omega
    rw [Nat.le_antisymm (hplaces _ _ hlower hup) (hplaces _ _ hlow hupper)]

-- ================================================================ confusion

/-- A short number `n` and a number `m` whose numerals agree though they
differ, or differ though they agree: `m` is `n` moved up, or is cut to
`n`, or to `n` moved up until it has all its digits. -/
def Confused (b k n m : Nat) : Prop :=
  Short b k n
    ∧ (m < b ^ (k + 1) ∧ (∃ j, 0 < j ∧ m = n * b ^ j)
      ∨ b ^ (k + 1) ≤ m ∧ (m % b ^ (k + 1) = n
        ∨ b ^ k ≤ m % b ^ (k + 1) ∧ ∃ j, m % b ^ (k + 1) = n * b ^ j))

/-- The numerals of two numbers agree exactly when the numbers do. -/
def Faithful (b width n m : Nat) : Prop :=
  frontPadded b width n = frontPadded b width m
    ↔ n % b ^ width = m % b ^ width

theorem faithful_comm {width : Nat} :
    Faithful b width n m ↔ Faithful b width m n := by
  unfold Faithful
  rw [eq_comm, @eq_comm _ (n % b ^ width)]

/-- No confusion without a short number. -/
theorem faithful_full (hb : 1 < b) (hn : ¬ Short b k n)
    (hm : ¬ Short b k m) : Faithful b (k + 1) n m := by
  unfold Faithful
  rw [frontPadded_eq_iff_value hb, ofDigits_frontPadded_full hb hn,
    ofDigits_frontPadded_full hb hm]

/-- A short number is confused with one that is not when its numeral is
the remainder, or the number itself is. -/
theorem confused_full_iff (hb : 1 < b) (hn : Short b k n)
    (hm : ¬ Short b k m) :
    Confused b k n m
      ↔ Nat.ofDigits b (frontPadded b (k + 1) n) = m % b ^ (k + 1)
        ∨ n = m % b ^ (k + 1) := by
  obtain ⟨-, hlow, hup, hvalue⟩ := short_value hb hn
  have hpos := hn.1
  have hlt := hn.2
  have hrange : m % b ^ (k + 1) < b ^ (k + 1) :=
    Nat.mod_lt _ (Nat.pow_pos (by omega))
  have hmoved : Nat.ofDigits b (frontPadded b (k + 1) n) = m % b ^ (k + 1)
      ↔ b ^ k ≤ m % b ^ (k + 1) ∧ ∃ j, m % b ^ (k + 1) = n * b ^ j := by
    constructor
    · intro heq
      have hlower : b ^ k ≤ m % b ^ (k + 1) := by omega
      exact ⟨hlower, (short_value_eq_iff hb hn hlower hrange).mp heq⟩
    · intro hright
      exact (short_value_eq_iff hb hn hright.1 hrange).mpr hright.2
  rw [hmoved]
  unfold Confused
  rcases Nat.lt_or_ge m (b ^ (k + 1)) with hsmall | hlarge
  · rw [Nat.mod_eq_of_lt hsmall]
    constructor
    · intro hconf
      obtain ⟨-, ⟨-, j, hj, rfl⟩ | ⟨hge, -⟩⟩ := hconf
      · have hfull : ¬ n * b ^ j < b ^ k :=
          fun h => hm ⟨Nat.mul_pos hpos (Nat.pow_pos (by omega)), h⟩
        exact Or.inl ⟨by omega, j, rfl⟩
      · omega
    · intro hright
      rcases hright with ⟨hge, j, hj⟩ | heq
      · refine ⟨hn, Or.inl ⟨hsmall, j, ?_, hj⟩⟩
        rcases Nat.eq_zero_or_pos j with rfl | hplaces
        · rw [Nat.pow_zero, Nat.mul_one] at hj
          omega
        · exact hplaces
      · rw [← heq] at hm
        exact absurd hn hm
  · constructor
    · intro hconf
      obtain ⟨-, ⟨hlt', -⟩ | ⟨-, hcut⟩⟩ := hconf
      · omega
      · rcases hcut with heq | hright
        · exact Or.inr heq.symm
        · exact Or.inl hright
    · intro hright
      refine ⟨hn, Or.inr ⟨hlarge, ?_⟩⟩
      rcases hright with hright | heq
      · exact Or.inr hright
      · exact Or.inl heq.symm

/-- A short number and one that is not. -/
theorem faithful_short_full (hb : 1 < b) (hn : Short b k n)
    (hm : ¬ Short b k m) :
    Faithful b (k + 1) n m ↔ ¬ Confused b k n m := by
  obtain ⟨hpadding, hlow, hup, hvalue⟩ := short_value hb hn
  have hlt := hn.2
  have hpow : b ^ k ≤ b ^ (k + 1) := Nat.pow_le_pow_right (by omega) (by omega)
  rw [confused_full_iff hb hn hm]
  unfold Faithful
  rw [frontPadded_eq_iff_value hb, ofDigits_frontPadded_full hb hm,
    Nat.mod_eq_of_lt (a := n) (by omega)]
  -- a short number is not its own numeral, so one side holds at most
  have hapart : ¬ (Nat.ofDigits b (frontPadded b (k + 1) n)
      = m % b ^ (k + 1) ∧ n = m % b ^ (k + 1)) := by
    intro hboth
    omega
  constructor
  · intro hiff hor
    rcases hor with heq | heq
    · exact hapart ⟨heq, hiff.mp heq⟩
    · exact hapart ⟨hiff.mpr heq, heq⟩
  · intro hno
    exact iff_of_false (fun h => hno (Or.inl h)) fun h => hno (Or.inr h)

/-- A short number moved up has the numeral it had. -/
theorem short_moved (hb : 1 < b) (hn : Short b k n) (hm : Short b k m)
    (hmoved : ∃ j, 0 < j ∧ m = n * b ^ j) :
    Nat.ofDigits b (frontPadded b (k + 1) n)
      = Nat.ofDigits b (frontPadded b (k + 1) m) ∧ n ≠ m := by
  obtain ⟨j, hj, rfl⟩ := hmoved
  obtain ⟨-, hlow, hup, hvalue⟩ := short_value hb hm
  constructor
  · rw [hvalue]
    apply (short_value_eq_iff hb hn hlow hup).mpr
    refine ⟨j + padding b (k + 1) (n * b ^ j), ?_⟩
    rw [Nat.mul_assoc, ← Nat.pow_add]
  · have hone : 1 < b ^ j := Nat.one_lt_pow hj.ne' hb
    have hmore := (Nat.mul_lt_mul_left hn.1).mpr hone
    omega

/-- Short numbers are confused by being moved up only. -/
theorem confused_short_iff (hn : Short b k n) (hm : Short b k m)
    (hpow : b ^ k ≤ b ^ (k + 1)) :
    Confused b k n m ↔ ∃ j, 0 < j ∧ m = n * b ^ j := by
  have hlt := hm.2
  constructor
  · intro hconf
    obtain ⟨-, ⟨-, hmoved⟩ | ⟨hge, -⟩⟩ := hconf
    · exact hmoved
    · omega
  · intro hmoved
    exact ⟨hn, Or.inl ⟨by omega, hmoved⟩⟩

/-- Of two numbers that agree when moved up, the one moved less is the
other moved up. -/
theorem moved_of_mul_pow {p q : Nat} (hb : 0 < b) (hpq : p < q)
    (heq : n * b ^ p = m * b ^ q) : ∃ j, 0 < j ∧ n = m * b ^ j := by
  refine ⟨q - p, by omega, ?_⟩
  have hsplit : b ^ q = b ^ (q - p) * b ^ p := by
    rw [← Nat.pow_add, Nat.sub_add_cancel hpq.le]
  rw [hsplit, ← Nat.mul_assoc] at heq
  exact Nat.eq_of_mul_eq_mul_right (Nat.pow_pos hb) heq

/-- Two short numbers. -/
theorem faithful_short (hb : 1 < b) (hn : Short b k n) (hm : Short b k m) :
    Faithful b (k + 1) n m ↔ ¬ Confused b k n m ∧ ¬ Confused b k m n := by
  have hpow : b ^ k ≤ b ^ (k + 1) := Nat.pow_le_pow_right (by omega) (by omega)
  have hself : n % b ^ (k + 1) = n := Nat.mod_eq_of_lt (hn.2.trans_le hpow)
  have hself' : m % b ^ (k + 1) = m := Nat.mod_eq_of_lt (hm.2.trans_le hpow)
  rw [confused_short_iff hn hm hpow, confused_short_iff hm hn hpow]
  unfold Faithful
  rw [frontPadded_eq_iff_value hb, hself, hself']
  constructor
  · intro hiff
    refine ⟨fun hex => ?_, fun hex => ?_⟩
    · obtain ⟨heq, hne⟩ := short_moved hb hn hm hex
      exact hne (hiff.mp heq)
    · obtain ⟨heq, hne⟩ := short_moved hb hm hn hex
      exact hne (hiff.mp heq.symm).symm
  · intro hno
    refine ⟨fun heq => ?_, fun heq => by rw [heq]⟩
    obtain ⟨-, -, -, hvalue⟩ := short_value hb hn
    obtain ⟨-, -, -, hvalue'⟩ := short_value hb hm
    rw [hvalue, hvalue'] at heq
    generalize padding b (k + 1) n = p at heq
    generalize padding b (k + 1) m = q at heq
    have hpos : 0 < b := by omega
    rcases Nat.lt_trichotomy p q with hpq | rfl | hpq
    · exact absurd (moved_of_mul_pow hpos hpq heq) hno.2
    · exact Nat.eq_of_mul_eq_mul_right (Nat.pow_pos hpos) heq
    · exact absurd (moved_of_mul_pow hpos hpq heq.symm) hno.1

/-- The numerals of two numbers agree exactly when the numbers do, unless
they are confused. -/
theorem frontPadded_eq_iff (hb : 1 < b) (n m : Nat) :
    Faithful b (k + 1) n m ↔ ¬ Confused b k n m ∧ ¬ Confused b k m n := by
  have hfull : ∀ {n m}, ¬ Short b k n → ¬ Confused b k n m :=
    fun h hconf => h hconf.1
  by_cases hn : Short b k n
  · by_cases hm : Short b k m
    · exact faithful_short hb hn hm
    · rw [faithful_short_full hb hn hm, and_iff_left (hfull hm)]
  · by_cases hm : Short b k m
    · rw [faithful_comm, faithful_short_full hb hm hn,
        and_iff_right (hfull hn)]
    · exact iff_of_true (faithful_full hb hn hm) ⟨hfull hn, hfull hm⟩

end Creeper.Lib
