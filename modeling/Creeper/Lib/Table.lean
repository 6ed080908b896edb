/-
Hash tables with their iteration order.

A `Table` is the list of its entries in the order an iteration visits
them, no key twice. The order a hash table iterates in is nobody's
promise, so `Table.Same` is the equality that matters: the same entries
in any order. What a lookup finds is the same in both (`Same.find`), and
whatever else is computed from an iteration has to be proved so.
-/
import Mathlib.Data.List.Perm.Basic
import Mathlib.Data.List.Nodup

namespace Creeper.Lib

/-- The entries of a hash table, in iteration order. -/
structure Table (κ ν : Type*) where
  entries : List (κ × ν)
  nodup : (entries.map Prod.fst).Nodup

namespace Table

variable {κ ν : Type*} [DecidableEq κ] {t t' : Table κ ν} {k k' : κ} {v : ν}

/-- No entries. -/
def empty : Table κ ν := ⟨[], List.nodup_nil⟩

/-- The keys, in iteration order. -/
def keys (t : Table κ ν) : List κ := t.entries.map Prod.fst

/-- The value under a key. -/
def find (t : Table κ ν) (k : κ) : Option ν := t.entries.lookup k

/-- Put a value under a key the table does not have; a key it has keeps
its value. -/
def emplace (t : Table κ ν) (k : κ) (v : ν) : Table κ ν :=
  if h : k ∈ t.keys then t
  else ⟨(k, v) :: t.entries, List.nodup_cons.mpr ⟨h, t.nodup⟩⟩

/-- The same entries, in any order. -/
def Same (t t' : Table κ ν) : Prop := t.entries.Perm t'.entries

-- ================================================================= lookup

/-- What is found is an entry. -/
theorem find_eq_some_iff :
    t.find k = some v ↔ (k, v) ∈ t.entries := by
  obtain ⟨entries, hnodup⟩ := t
  unfold find
  induction entries with
  | nil => simp
  | cons entry entries ih =>
      obtain ⟨k', v'⟩ := entry
      obtain ⟨hnew, hrest⟩ := List.nodup_cons.mp hnodup
      by_cases hk : k = k'
      · subst hk
        have hout : (k, v) ∉ entries := fun hmem =>
          hnew (List.mem_map.mpr ⟨_, hmem, rfl⟩)
        simp only [List.lookup_cons_self, Option.some.injEq, List.mem_cons,
          Prod.mk.injEq, true_and, hout, or_false]
        exact eq_comm
      · have hne : (k == k') = false := beq_eq_false_iff_ne.mpr hk
        simp only [List.lookup_cons, hne, List.mem_cons, Prod.mk.injEq, hk,
          false_and, false_or]
        exact ih hrest

/-- A key is there exactly when something is found under it. -/
theorem find_eq_none_iff : t.find k = none ↔ k ∉ t.keys := by
  constructor
  · intro hnone hmem
    obtain ⟨⟨k', v⟩, hentry, rfl⟩ := List.mem_map.mp hmem
    rw [find_eq_some_iff.mpr hentry] at hnone
    cases hnone
  · intro hout
    cases hfind : t.find k with
    | none => rfl
    | some v =>
        exact absurd (List.mem_map.mpr ⟨_, find_eq_some_iff.mp hfind, rfl⟩)
          hout

@[simp] theorem find_empty (k : κ) : (empty : Table κ ν).find k = none :=
  rfl

/-- An emplaced key is found with its old value if it had one. -/
theorem find_emplace_self (t : Table κ ν) (k : κ) (v : ν) :
    (t.emplace k v).find k = (t.find k).or (some v) := by
  unfold emplace
  split
  · next hmem =>
    cases hfind : t.find k with
    | none => exact absurd hmem (find_eq_none_iff.mp hfind)
    | some v' => rfl
  · next hout =>
    rw [find_eq_none_iff.mpr hout]
    exact List.lookup_cons_self

/-- Other keys are found as before. -/
theorem find_emplace_ne (t : Table κ ν) (h : k' ≠ k) (v : ν) :
    (t.emplace k v).find k' = t.find k' := by
  unfold emplace
  split
  · rfl
  · have hne : (k' == k) = false := beq_eq_false_iff_ne.mpr h
    unfold find
    simp only [List.lookup_cons, hne]

/-- A key that is there is not put there again. -/
theorem emplace_eq_self_iff : t.emplace k v = t ↔ k ∈ t.keys := by
  unfold emplace
  split
  · next hmem => simp [hmem]
  · next hout =>
    refine ⟨fun heq => ?_, fun hmem => absurd hmem hout⟩
    have hlength := congrArg (fun t => t.entries.length) heq
    simp at hlength

-- =============================================================== any order

omit [DecidableEq κ] in
theorem Same.refl (t : Table κ ν) : t.Same t := List.Perm.refl _

/-- A lookup does not depend on the order. -/
theorem Same.find (h : t.Same t') (k : κ) : t.find k = t'.find k := by
  cases hfind : t.find k with
  | some v =>
      exact (find_eq_some_iff.mpr
        (h.mem_iff.mp (find_eq_some_iff.mp hfind))).symm
  | none =>
      refine (find_eq_none_iff.mpr fun hmem => ?_).symm
      exact find_eq_none_iff.mp hfind ((h.map Prod.fst).mem_iff.mpr hmem)

omit [DecidableEq κ] in
/-- The keys do not depend on the order. -/
theorem Same.mem_keys (h : t.Same t') : k ∈ t.keys ↔ k ∈ t'.keys :=
  (h.map Prod.fst).mem_iff

end Table

end Creeper.Lib
