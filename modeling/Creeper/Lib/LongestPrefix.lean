/-
The longest of several keys that is a prefix of a list.

`longestPrefix` goes through the keys with the best one so far, as a
linear search does, and starts with the empty list. Two prefixes of one
list that have the same length are equal, so the order of the keys and
the choice between `<` and `≤` do not matter: `longestPrefix_eq` says
that any key that is a longest prefix is the result.
-/
import Mathlib.Data.List.Basic
import Mathlib.Data.List.Infix

namespace Creeper.Lib

variable {α : Type*} {keys : List (List α)} {l k : List α}

/-- The key is a prefix of the list and no key that is one is longer. -/
structure IsLongestPrefix (keys : List (List α)) (l k : List α) : Prop where
  mem : k ∈ keys
  isPrefix : k <+: l
  longest : ∀ k' ∈ keys, k' <+: l → k'.length ≤ k.length

/-- There is one longest prefix. -/
theorem IsLongestPrefix.unique {k' : List α} (h : IsLongestPrefix keys l k)
    (h' : IsLongestPrefix keys l k') : k = k' := by
  have hlength : k.length = k'.length :=
    Nat.le_antisymm (h'.longest k h.mem h.isPrefix)
      (h.longest k' h'.mem h'.isPrefix)
  exact (List.prefix_of_prefix_length_le h.isPrefix h'.isPrefix
    hlength.le).eq_of_length hlength

/-- Being the longest prefix is about the keys, not their order. -/
theorem IsLongestPrefix.congr {keys' : List (List α)}
    (h : IsLongestPrefix keys l k) (hkeys : ∀ k, k ∈ keys ↔ k ∈ keys') :
    IsLongestPrefix keys' l k :=
  ⟨(hkeys k).mp h.mem, h.isPrefix,
    fun k' hk' => h.longest k' ((hkeys k').mpr hk')⟩

-- ============================================================== the search

variable [DecidableEq α]

/-- The better of the best so far and the next key. -/
def better (l best k : List α) : List α :=
  if l.take k.length = k then
    if k.length > best.length then k else best
  else best

/-- The longest key that is a prefix, the empty list if none is. -/
def longestPrefix (keys : List (List α)) (l : List α) : List α :=
  keys.foldl (better l) []

omit [DecidableEq α] in
/-- The test of the search is the prefix order. -/
theorem take_length_eq_iff : l.take k.length = k ↔ k <+: l := by
  rw [List.prefix_iff_eq_take, eq_comm]

/-- The search, entered with a prefix, ends with a prefix that is at
least as long as that one and every key that is a prefix, and is that
one or a key. -/
theorem foldl_better (keys : List (List α)) {best : List α}
    (hbest : best <+: l) :
    keys.foldl (better l) best <+: l
      ∧ best.length ≤ (keys.foldl (better l) best).length
      ∧ (∀ k ∈ keys, k <+: l →
        k.length ≤ (keys.foldl (better l) best).length)
      ∧ (keys.foldl (better l) best = best
        ∨ keys.foldl (better l) best ∈ keys) := by
  induction keys generalizing best with
  | nil => exact ⟨hbest, Nat.le_refl _, by simp, Or.inl rfl⟩
  | cons k keys ih =>
      have hnext : better l best k <+: l
          ∧ best.length ≤ (better l best k).length
          ∧ (k <+: l → k.length ≤ (better l best k).length)
          ∧ (better l best k = best ∨ better l best k = k) := by
        unfold better
        split
        · next hk =>
          have hk := take_length_eq_iff.mp hk
          split
          · next hlt => exact ⟨hk, by omega, fun _ => le_rfl, Or.inr rfl⟩
          · next hge =>
            exact ⟨hbest, le_rfl, fun _ => by omega, Or.inl rfl⟩
        · next hk =>
          have hk := take_length_eq_iff.not.mp hk
          exact ⟨hbest, le_rfl, fun h => absurd h hk, Or.inl rfl⟩
      obtain ⟨hstarts, hle, hk, hfrom⟩ := hnext
      obtain ⟨hend, hgrow, hall, hmem⟩ := ih hstarts
      refine ⟨hend, hle.trans hgrow, ?_, ?_⟩
      · intro k' hk' hpre
        rcases List.mem_cons.mp hk' with rfl | hk'
        · exact (hk hpre).trans hgrow
        · exact hall k' hk' hpre
      · rcases hmem with hmem | hmem
        · rw [List.foldl_cons, hmem]
          rcases hfrom with hfrom | hfrom
          · exact Or.inl hfrom
          · exact Or.inr (by rw [hfrom]; exact List.mem_cons_self ..)
        · exact Or.inr (List.mem_cons_of_mem _ hmem)

/-- The search finds the longest prefix. -/
theorem longestPrefix_eq (h : IsLongestPrefix keys l k) :
    longestPrefix keys l = k := by
  obtain ⟨hstarts, -, hall, hmem⟩ := foldl_better keys l.nil_prefix
  have hlength : k.length = (longestPrefix keys l).length := by
    refine Nat.le_antisymm (hall k h.mem h.isPrefix) ?_
    rcases hmem with hnil | hmem
    · show (keys.foldl (better l) []).length ≤ k.length
      rw [hnil]
      exact Nat.zero_le _
    · exact h.longest _ hmem hstarts
  exact ((List.prefix_of_prefix_length_le h.isPrefix hstarts
    hlength.le).eq_of_length hlength).symm

/-- When some key is a prefix, there is a longest one. -/
theorem exists_isLongestPrefix {k₀ : List α} (hmem : k₀ ∈ keys)
    (hstarts : k₀ <+: l) : ∃ k, IsLongestPrefix keys l k := by
  obtain ⟨hpre, -, hall, hfrom⟩ := foldl_better keys l.nil_prefix
  rcases hfrom with hnil | hkey
  · -- nothing longer than the empty list was found, so the key is empty
    have hlength := hall k₀ hmem hstarts
    rw [hnil] at hlength hall
    obtain rfl : k₀ = [] := List.eq_nil_of_length_eq_zero
      (Nat.le_zero.mp hlength)
    exact ⟨[], hmem, hstarts, hall⟩
  · exact ⟨_, hkey, hpre, hall⟩

/-- What the search finds is a prefix. -/
theorem longestPrefix_isPrefix (keys : List (List α)) (l : List α) :
    longestPrefix keys l <+: l :=
  (foldl_better keys l.nil_prefix).1

/-- When no key is a prefix the search ends where it began. -/
theorem longestPrefix_eq_nil (h : ∀ k ∈ keys, ¬ k <+: l) :
    longestPrefix keys l = [] := by
  obtain ⟨hstarts, -, -, hnil | hkey⟩ := foldl_better keys l.nil_prefix
  · exact hnil
  · exact absurd hstarts (h _ hkey)

end Creeper.Lib
