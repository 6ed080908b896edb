/-
Maps from a key and an `int` to a value, with ids handed out upwards.

This is what a store of numbered things is for: under each key some ids
have a value, a new id is the one after the largest (and after zero),
and when the largest is `INT_MAX` there is no new id. `IsLast` is the
largest id in those terms; it is unique, so what a store answers is
determined by its map (`IsLast.unique`).
-/
import Mathlib.Order.Bounds.Basic
import Creeper.Lib.Stoi
import Creeper.Lib.Submap

namespace Creeper.Lib

/-- Values under a key and an id. -/
abbrev IdMap (κ ν : Type) := κ → CInt → Option ν

namespace IdMap

variable {κ ν ν' : Type} [DecidableEq κ] {m : IdMap κ ν} {key key' : κ}
  {id id' k : CInt} {v : ν}

/-- Nothing under any id. -/
def empty : IdMap κ ν := fun _ _ => none

/-- The ids in use under a key. -/
def ids (m : IdMap κ ν) (key : κ) : Set CInt := fun id => (m key id).isSome

/-- Give an id a value. -/
def set (m : IdMap κ ν) (key : κ) (id : CInt) (v : ν) : IdMap κ ν :=
  Function.update m key (upsert (m key) id v)

/-- Take an id's value away. -/
def unset (m : IdMap κ ν) (key : κ) (id : CInt) : IdMap κ ν :=
  Function.update m key (erase (m key) id)

/-- The same ids, with other values. -/
def map (f : ν → ν') (m : IdMap κ ν) : IdMap κ ν' :=
  fun key id => (m key id).map f

/-- The largest of the ids in use and zero. -/
def IsLast (m : IdMap κ ν) (key : κ) (k : CInt) : Prop :=
  IsGreatest (insert CInt.zero (m.ids key)) k

-- ================================================================= lookups

theorem set_self (m : IdMap κ ν) (key : κ) (id : CInt) (v : ν) :
    m.set key id v key = upsert (m key) id v :=
  Function.update_self ..

theorem set_ne (h : key' ≠ key) (id : CInt) (v : ν) :
    m.set key id v key' = m key' :=
  Function.update_of_ne h ..

theorem unset_self (m : IdMap κ ν) (key : κ) (id : CInt) :
    m.unset key id key = erase (m key) id :=
  Function.update_self ..

theorem unset_ne (h : key' ≠ key) (id : CInt) :
    m.unset key id key' = m key' :=
  Function.update_of_ne h ..

/-- The last value counts. -/
theorem set_set (m : IdMap κ ν) (key : κ) (id : CInt) (v v' : ν) :
    (m.set key id v).set key id v' = m.set key id v' := by
  unfold set upsert
  rw [Function.update_idem, Function.update_self, Function.update_idem]

/-- Unsetting an id that is not in use changes nothing. -/
theorem unset_of_none (h : m key id = none) : m.unset key id = m := by
  unfold unset erase
  rw [← h, Function.update_eq_self, Function.update_eq_self]

theorem map_set (f : ν → ν') (m : IdMap κ ν) (key : κ) (id : CInt) (v : ν) :
    (m.set key id v).map f = (m.map f).set key id (f v) := by
  funext key' id'
  unfold map
  by_cases hkey : key' = key
  · subst hkey
    rw [set_self, set_self]
    by_cases hid : id' = id
    · subst hid
      rw [upsert_same, upsert_same]
      rfl
    · rw [upsert_ne _ hid, upsert_ne _ hid]
  · rw [set_ne hkey, set_ne hkey]

theorem map_unset (f : ν → ν') (m : IdMap κ ν) (key : κ) (id : CInt) :
    (m.unset key id).map f = (m.map f).unset key id := by
  funext key' id'
  unfold map
  by_cases hkey : key' = key
  · subst hkey
    rw [unset_self, unset_self]
    by_cases hid : id' = id <;> simp [erase, hid]
  · rw [unset_ne hkey, unset_ne hkey]

omit [DecidableEq κ] in
/-- The ids in use do not depend on the values. -/
theorem ids_map (f : ν → ν') (m : IdMap κ ν) (key : κ) :
    (m.map f).ids key = m.ids key := by
  funext id
  unfold ids map
  rw [Option.isSome_map]

omit [DecidableEq κ] in
theorem isLast_map {f : ν → ν'} : (m.map f).IsLast key k ↔ m.IsLast key k := by
  unfold IsLast
  rw [ids_map]

-- ============================================================= the last id

omit [DecidableEq κ] in
theorem IsLast.unique {k' : CInt} (h : m.IsLast key k)
    (h' : m.IsLast key k') : k = k' :=
  IsGreatest.unique h h'

omit [DecidableEq κ] in
/-- An id after the last is free. -/
theorem IsLast.free (h : m.IsLast key k) (hid : k < id) :
    m key id = none := by
  cases hm : m key id with
  | none => rfl
  | some v =>
      have hmem : id ∈ m.ids key := by
        show (m key id).isSome
        rw [hm]
        rfl
      exact absurd (h.2 (Set.mem_insert_of_mem _ hmem)) (not_le.mpr hid)

omit [DecidableEq κ] in
/-- The last id is `INT_MAX` only if that is in use. -/
theorem IsLast.mem_of_max (h : m.IsLast key k) (hmax : k.val = intMax) :
    (m key k).isSome := by
  rcases h.1 with hzero | hmem
  · rw [hzero] at hmax
    exact absurd hmax (by decide)
  · exact hmem

omit [DecidableEq κ] in
/-- Where `INT_MAX` is in use, it is the last id. -/
theorem IsLast.max_of_mem (h : m.IsLast key k) (hid : id.val = intMax)
    (hmem : (m key id).isSome) : k = id := by
  have hle : id ≤ k := h.2 (Set.mem_insert_of_mem _ hmem)
  apply Subtype.ext
  have hval : id.val ≤ k.val := hle
  have hmax := k.property.2
  omega

end IdMap

end Creeper.Lib
