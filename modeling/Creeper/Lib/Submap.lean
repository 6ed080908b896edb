/-
Maps as lookup functions, and the order that write-once maps climb.

`Submap m m'` says that `m'` still answers everything `m` answered. It
is the whole vocabulary two stores over the same keys need: a store
whose entries never change climbs it, and a cache is coherent with its
store when it is below it.

`WriteOnce` is one move of a map whose entries never change: stay, or
give a free key a value. A system whose store makes only such moves
refines the write-once map, and `WriteOnce.submap` is what that buys.
-/
import Mathlib.Logic.Function.Basic

namespace Creeper.Lib

variable {κ ν : Type*} [DecidableEq κ]

/-- Insert a key, or overwrite it. -/
def upsert (m : κ → Option ν) (k : κ) (v : ν) : κ → Option ν :=
  Function.update m k (some v)

/-- Forget a key. -/
def erase (m : κ → Option ν) (k : κ) : κ → Option ν :=
  Function.update m k none

/-- Every entry of the first map is an entry of the second. -/
def Submap (m m' : κ → Option ν) : Prop :=
  ∀ k v, m k = some v → m' k = some v

@[simp] theorem upsert_same (m : κ → Option ν) (k : κ) (v : ν) :
    upsert m k v k = some v := by
  simp [upsert]

theorem upsert_ne (m : κ → Option ν) {k k' : κ} (h : k' ≠ k) (v : ν) :
    upsert m k v k' = m k' := by
  simp [upsert, h]

/-- An entry of an upserted map is the new one or an old one. -/
theorem upsert_eq_some {m : κ → Option ν} {k k' : κ} {v v' : ν}
    (h : upsert m k v k' = some v') :
    (k' = k ∧ v' = v) ∨ (k' ≠ k ∧ m k' = some v') := by
  by_cases hk : k' = k
  · subst hk
    rw [upsert_same] at h
    exact Or.inl ⟨rfl, (Option.some.inj h).symm⟩
  · rw [upsert_ne m hk] at h
    exact Or.inr ⟨hk, h⟩

/-- An entry that is left after a key was forgotten was there. -/
theorem erase_eq_some {m : κ → Option ν} {k k' : κ} {v' : ν}
    (h : erase m k k' = some v') : m k' = some v' := by
  by_cases hkk : k' = k
  · subst hkk
    simp [erase] at h
  · simpa [erase, hkk] using h

namespace Submap

variable {m m' m'' : κ → Option ν} {k : κ} {v : ν}

omit [DecidableEq κ] in
theorem refl (m : κ → Option ν) : Submap m m := fun _ _ h => h

omit [DecidableEq κ] in
theorem trans (h : Submap m m') (h' : Submap m' m'') : Submap m m'' :=
  fun k v hk => h' k v (h k v hk)

omit [DecidableEq κ] in
/-- Nothing is below the empty map's entries. -/
theorem empty (m : κ → Option ν) : Submap (fun _ => none) m :=
  fun _ _ h => nomatch h

/-- Writing a free key, or rewriting a key with its own value, climbs. -/
theorem upsert_right (h : m k = none ∨ m k = some v) :
    Submap m (upsert m k v) := by
  intro k' v' hk'
  by_cases hkk : k' = k
  · subst hkk
    rcases h with h | h
    · rw [h] at hk'; cases hk'
    · rw [upsert_same, ← h, hk']
  · rw [upsert_ne m hkk, hk']

/-- Copying an entry of the larger map into the smaller keeps the
order. -/
theorem upsert_left (h : Submap m m') (hv : m' k = some v) :
    Submap (upsert m k v) m' := by
  intro k' v' hk'
  rcases upsert_eq_some hk' with ⟨rfl, rfl⟩ | ⟨-, hm⟩
  · exact hv
  · exact h k' v' hm

/-- Forgetting a key of the smaller map keeps the order. -/
theorem erase_left (h : Submap m m') (k : κ) : Submap (erase m k) m' :=
  fun k' v' hk' => h k' v' (erase_eq_some hk')

end Submap

-- ======================================================== write-once maps

/-- One move of a write-once map. -/
inductive WriteOnce (m : κ → Option ν) : (κ → Option ν) → Prop
  | keep : WriteOnce m m
  | assign (k : κ) (v : ν) (hfree : m k = none) : WriteOnce m (upsert m k v)

/-- A write-once map only grows. -/
theorem WriteOnce.submap {m m' : κ → Option ν} (h : WriteOnce m m') :
    Submap m m' := by
  cases h with
  | keep => exact Submap.refl m
  | assign k v hfree => exact Submap.upsert_right (Or.inl hfree)

end Creeper.Lib
