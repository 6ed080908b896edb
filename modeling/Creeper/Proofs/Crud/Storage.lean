/-
What a storage is for, and that the simulated one does it.

A storage is an `IdMap`: under each resource, some ids with a text.
`Answers` is what a call may return on such a map and what it does to
it; it leaves only the order of a listing open (`Answers.unique`). The
simulated storage is such a map, looked at through `retrieve`, and
answers from it (`sim_answers`).
-/
import Creeper.Lib.IdMap
import Creeper.Proofs.Crud.Containment

namespace Creeper

open Lib

-- ========================================================= the abstract map

/-- What a storage is for: resource, id, text. -/
abbrev EntityMap := IdMap Str Str

/-- What a call may return on a map, and the map after it. -/
inductive Answers (m : EntityMap) :
    (c : StoreCall) → c.Reply → EntityMap → Prop
  | created {resource data : Str} {k id : CInt}
      (hlast : m.IsLast resource k) (hid : id.val = k.val + 1) :
      Answers m (.create resource data) (some id) (m.set resource id data)
  | full {resource data : Str} {k : CInt} (hlast : m.IsLast resource k)
      (hmax : k.val = intMax) : Answers m (.create resource data) none m
  | retrieved {resource : Str} {id : CInt} :
      Answers m (.retrieve resource id) (m resource id) m
  | updated {resource data : Str} {id : CInt} :
      Answers m (.update resource id data) true (m.set resource id data)
  | removed {resource : Str} {id : CInt} :
      Answers m (.remove resource id) (m resource id).isSome
        (m.unset resource id)
  | listed {resource : Str} {ids : List CInt} (hnodup : ids.Nodup)
      (hmem : ∀ id, id ∈ ids ↔ (m resource id).isSome) :
      Answers m (.list resource) ids m

/-- The same result: for a listing, the same ids, none of them twice. -/
def StoreCall.Agree : (c : StoreCall) → c.Reply → c.Reply → Prop
  | .create _ _, r, r' => r = r'
  | .retrieve _ _, r, r' => r = r'
  | .update _ _ _, r, r' => r = r'
  | .remove _ _, r, r' => r = r'
  | .list _, ids, ids' =>
      ids.Nodup ∧ ids'.Nodup ∧ ∀ id, id ∈ ids ↔ id ∈ ids'

section Inversion

variable {m m' : EntityMap} {resource data : Str} {id : CInt}

/-- A new entity is put after the last id, if that is not `INT_MAX`. -/
theorem Answers.of_create {r : Option CInt}
    (h : Answers m (.create resource data) r m') :
    ∃ k, m.IsLast resource k
      ∧ ((k.val = intMax ∧ r = none ∧ m' = m)
        ∨ ∃ id, id.val = k.val + 1 ∧ r = some id
          ∧ m' = m.set resource id data) := by
  cases h with
  | created hlast hid => exact ⟨_, hlast, Or.inr ⟨_, hid, rfl, rfl⟩⟩
  | full hlast hmax => exact ⟨_, hlast, Or.inl ⟨hmax, rfl, rfl⟩⟩

theorem Answers.of_retrieve {r : Option Str}
    (h : Answers m (.retrieve resource id) r m') :
    r = m resource id ∧ m' = m := by
  cases h
  exact ⟨rfl, rfl⟩

theorem Answers.of_update {r : Bool}
    (h : Answers m (.update resource id data) r m') :
    r = true ∧ m' = m.set resource id data := by
  cases h
  exact ⟨rfl, rfl⟩

theorem Answers.of_remove {r : Bool}
    (h : Answers m (.remove resource id) r m') :
    r = (m resource id).isSome ∧ m' = m.unset resource id := by
  cases h
  exact ⟨rfl, rfl⟩

theorem Answers.of_list {ids : List CInt}
    (h : Answers m (.list resource) ids m') :
    ids.Nodup ∧ (∀ id, id ∈ ids ↔ (m resource id).isSome) ∧ m' = m := by
  cases h with
  | listed hnodup hmem => exact ⟨hnodup, hmem, rfl⟩

end Inversion

/-- The map determines the result and the next map. -/
theorem Answers.unique {m m₁ m₂ : EntityMap} {c : StoreCall}
    {r₁ r₂ : c.Reply} (h₁ : Answers m c r₁ m₁) (h₂ : Answers m c r₂ m₂) :
    c.Agree r₁ r₂ ∧ m₁ = m₂ := by
  cases c with
  | create resource data =>
      obtain ⟨k, hlast, hk⟩ := h₁.of_create
      obtain ⟨k', hlast', hk'⟩ := h₂.of_create
      obtain rfl := hlast.unique hlast'
      rcases hk with ⟨hmax, rfl, rfl⟩ | ⟨id, hid, rfl, rfl⟩
      · rcases hk' with ⟨-, rfl, rfl⟩ | ⟨id', hid', -, -⟩
        · exact ⟨rfl, rfl⟩
        · exact absurd hmax (CInt.val_ne_max hid')
      · rcases hk' with ⟨hmax', -, -⟩ | ⟨id', hid', rfl, rfl⟩
        · exact absurd hmax' (CInt.val_ne_max hid)
        · obtain rfl := Subtype.ext (hid.trans hid'.symm)
          exact ⟨rfl, rfl⟩
  | retrieve resource id =>
      obtain ⟨rfl, rfl⟩ := h₁.of_retrieve
      obtain ⟨rfl, rfl⟩ := h₂.of_retrieve
      exact ⟨rfl, rfl⟩
  | update resource id data =>
      obtain ⟨rfl, rfl⟩ := h₁.of_update
      obtain ⟨rfl, rfl⟩ := h₂.of_update
      exact ⟨rfl, rfl⟩
  | remove resource id =>
      obtain ⟨rfl, rfl⟩ := h₁.of_remove
      obtain ⟨rfl, rfl⟩ := h₂.of_remove
      exact ⟨rfl, rfl⟩
  | list resource =>
      obtain ⟨hnodup, hmem, rfl⟩ := h₁.of_list
      obtain ⟨hnodup', hmem', rfl⟩ := h₂.of_list
      exact ⟨⟨hnodup, hnodup', fun id => (hmem id).trans (hmem' id).symm⟩,
        rfl⟩

-- ================================================================ the ids

/-- The loop finds the largest of the ids and zero. -/
theorem isGreatest_maxId (ids : List CInt) :
    IsGreatest (insert CInt.zero {id | id ∈ ids}) (maxId ids) := by
  have hgeneral : ∀ start : CInt,
      IsGreatest (insert start {id | id ∈ ids})
        (ids.foldl (fun max id => if max.val < id.val then id else max)
          start) := by
    induction ids with
    | nil =>
        intro start
        simp
    | cons id ids ih =>
        intro start
        rw [List.foldl_cons]
        obtain ⟨hmem, hupper⟩ := ih (if start.val < id.val then id else start)
        have hnew : (if start.val < id.val then id else start) = start
            ∨ (if start.val < id.val then id else start) = id := by
          split
          · exact Or.inr rfl
          · exact Or.inl rfl
        have hstart : start ≤ if start.val < id.val then id else start := by
          split
          · next hlt => exact le_of_lt hlt
          · exact le_refl start
        have hid : id ≤ if start.val < id.val then id else start := by
          split
          · exact le_refl id
          · next hnot => exact not_lt.mp hnot
        have hnext := hupper (Set.mem_insert _ _)
        constructor
        · rcases hmem with heq | hin
          · rw [heq]
            rcases hnew with heq | heq
            · exact Or.inl heq
            · exact Or.inr (by rw [heq]; exact List.mem_cons_self ..)
          · exact Or.inr (List.mem_cons_of_mem _ hin)
        · intro j hj
          rcases hj with rfl | hj
          · exact hstart.trans hnext
          · rcases List.mem_cons.mp hj with rfl | hin
            · exact hid.trans hnext
            · exact hupper (Set.mem_insert_of_mem _ hin)
  exact hgeneral _

theorem maxId_nonneg (ids : List CInt) : 0 ≤ (maxId ids).val :=
  (isGreatest_maxId ids).2 (Set.mem_insert _ _)

/-- The next id is the one after the largest, if that is not
`INT_MAX`. -/
theorem nextAvailableId_cases (ids : List CInt) :
    ((maxId ids).val = intMax ∧ nextAvailableId ids = .ofInt (-1))
      ∨ (nextAvailableId ids).val = (maxId ids).val + 1 := by
  have hmax := (maxId ids).property.2
  unfold nextAvailableId
  split
  · next hfull => exact Or.inl ⟨by omega, rfl⟩
  · exact Or.inr rfl

/-- The largest of the ids in use, whatever order they come in. -/
theorem isLast_maxId {m : EntityMap} (resource : Str) {ids : List CInt}
    (hmem : ∀ id, id ∈ ids ↔ (m resource id).isSome) :
    m.IsLast resource (maxId ids) := by
  have hids : {id | id ∈ ids} = m.ids resource := Set.ext hmem
  have hgreatest := isGreatest_maxId ids
  rw [hids] at hgreatest
  exact hgreatest

-- =================================================== the simulated storage

namespace SimEntityStorage

variable {storage : SimEntityStorage} {resource data : Str} {id : CInt}
  {entities : Std.TreeMap CInt Str}

theorem retrieve_of_some (h : storage resource = some entities)
    (id : CInt) : entities[id]? = storage.retrieve resource id := by
  unfold retrieve
  rw [h]

theorem retrieve_of_none (h : storage resource = none) (id : CInt) :
    storage.retrieve resource id = none := by
  unfold retrieve
  rw [h]

/-- Inserting an entity sets its id. -/
theorem retrieve_insert (hsame : ∀ j, entities[j]? = storage.retrieve resource j)
    (id : CInt) (data : Str) :
    retrieve (upsert storage resource (entities.insert id data))
      = IdMap.set (retrieve storage) resource id data := by
  funext resource' j
  by_cases hresource : resource' = resource
  · subst hresource
    rw [IdMap.set_self]
    unfold retrieve at hsame ⊢
    rw [upsert_same]
    simp only
    rw [Std.TreeMap.getElem?_insert]
    by_cases hj : j = id
    · subst hj
      rw [if_pos Std.ReflOrd.compare_self, upsert_same]
    · have hne : ¬ compare id j = .eq := fun heq =>
        hj (Std.LawfulEqOrd.eq_of_compare heq).symm
      rw [if_neg hne, upsert_ne _ hj]
      exact hsame j
  · rw [IdMap.set_ne hresource]
    unfold retrieve
    rw [upsert_ne _ hresource]

/-- Erasing an entity unsets its id. -/
theorem retrieve_erase (hsame : ∀ j, entities[j]? = storage.retrieve resource j)
    (id : CInt) :
    retrieve (upsert storage resource (entities.erase id))
      = IdMap.unset (retrieve storage) resource id := by
  funext resource' j
  by_cases hresource : resource' = resource
  · subst hresource
    rw [IdMap.unset_self]
    unfold retrieve at hsame ⊢
    rw [upsert_same]
    simp only
    rw [Std.TreeMap.getElem?_erase]
    by_cases hj : j = id
    · subst hj
      rw [if_pos Std.ReflOrd.compare_self]
      simp [erase]
    · have hne : ¬ compare id j = .eq := fun heq =>
        hj (Std.LawfulEqOrd.eq_of_compare heq).symm
      rw [if_neg hne, hsame j]
      simp [erase, hj]
  · rw [IdMap.unset_ne hresource]
    unfold retrieve
    rw [upsert_ne _ hresource]

/-- The next id of the simulated storage. -/
theorem getNextAvailableId_cases (storage : SimEntityStorage)
    (resource : Str) :
    ∃ k, IdMap.IsLast (retrieve storage) resource k
      ∧ ((k.val = intMax
            ∧ storage.getNextAvailableId resource = .ofInt (-1))
        ∨ ((storage.getNextAvailableId resource).val = k.val + 1
            ∧ storage.getNextAvailableId resource ≠ .ofInt (-1))) := by
  unfold getNextAvailableId
  cases hstorage : storage resource with
  | none =>
      refine ⟨.zero, ?_, Or.inr ⟨rfl, by decide⟩⟩
      have hnone : ∀ id, id ∈ ([] : List CInt)
          ↔ (retrieve storage resource id).isSome := by
        intro id
        rw [retrieve_of_none hstorage]
        simp
      exact isLast_maxId resource hnone
  | some entities =>
      refine ⟨maxId entities.keys, isLast_maxId resource fun id => ?_, ?_⟩
      · rw [← retrieve_of_some hstorage, Std.TreeMap.mem_keys,
          Std.TreeMap.mem_iff_isSome_getElem?]
      · rcases nextAvailableId_cases entities.keys with hfull | hnext
        · exact Or.inl hfull
        · refine Or.inr ⟨hnext, fun heq => ?_⟩
          have hnonneg := maxId_nonneg entities.keys
          have hminus : (CInt.ofInt (-1)).val = -1 := rfl
          simp only at heq
          rw [heq, hminus] at hnext
          omega

theorem create_answers (storage : SimEntityStorage)
    (resource data : Str) :
    Answers storage.retrieve (.create resource data)
      (storage.create resource data).2
      (retrieve (storage.create resource data).1) := by
  obtain ⟨k, hlast, ⟨hmax, hfull⟩ | ⟨hnext, hne⟩⟩ :=
    getNextAvailableId_cases storage resource
  · have hcreate : storage.create resource data = (storage, none) := by
      unfold create
      simp only
      rw [if_pos hfull]
    rw [hcreate]
    exact .full hlast hmax
  · unfold create
    simp only
    rw [if_neg hne]
    split
    · next hnone =>
      rw [retrieve_insert fun j => (retrieve_of_none hnone j).symm]
      exact .created hlast hnext
    · next entities hsome =>
      rw [retrieve_insert (retrieve_of_some hsome)]
      exact .created hlast hnext

theorem update_answers (storage : SimEntityStorage) (resource : Str)
    (id : CInt) (data : Str) :
    Answers storage.retrieve (.update resource id data)
      (storage.update resource id data).2
      (retrieve (storage.update resource id data).1) := by
  unfold update
  split
  · next entities hsome =>
    rw [retrieve_insert (retrieve_of_some hsome)]
    exact .updated
  · next hnone =>
    rw [retrieve_insert fun j => (retrieve_of_none hnone j).symm]
    exact .updated

/-- A missing entity is removed by doing nothing. -/
theorem remove_missing (hfree : storage.retrieve resource id = none) :
    Answers storage.retrieve (.remove resource id) false
      storage.retrieve := by
  have hans : Answers (retrieve storage) (.remove resource id) _ _ :=
    .removed
  rw [IdMap.unset_of_none hfree, hfree] at hans
  exact hans

theorem remove_answers (storage : SimEntityStorage) (resource : Str)
    (id : CInt) :
    Answers storage.retrieve (.remove resource id)
      (storage.remove resource id).2
      (retrieve (storage.remove resource id).1) := by
  unfold remove
  split
  · next hnone => exact remove_missing (retrieve_of_none hnone id)
  · next entities hsome =>
    have hsame := retrieve_of_some hsome
    split
    · next hmem =>
      have hans : Answers (retrieve storage) (.remove resource id) _ _ :=
        .removed
      rw [Std.TreeMap.mem_iff_isSome_getElem?, hsame id] at hmem
      rw [hmem] at hans
      rw [retrieve_erase hsame]
      exact hans
    · next hout =>
      apply remove_missing
      rw [← hsame id]
      exact Std.TreeMap.getElem?_eq_none hout

theorem list_answers (storage : SimEntityStorage) (resource : Str) :
    Answers storage.retrieve (.list resource) (storage.list resource)
      storage.retrieve := by
  unfold list
  split
  · next hnone =>
    refine .listed List.nodup_nil fun id => ?_
    rw [retrieve_of_none hnone]
    simp
  · next entities hsome =>
    have hkeys : entities.keys.Nodup := by
      refine Std.TreeMap.distinct_keys.imp fun hne heq => hne ?_
      rw [heq]
      exact Std.ReflOrd.compare_self
    refine .listed hkeys fun id => ?_
    rw [← retrieve_of_some hsome, Std.TreeMap.mem_keys,
      Std.TreeMap.mem_iff_isSome_getElem?]

/-- The simulated storage answers from the map it is. -/
theorem sim_answers (storage : SimEntityStorage) (c : StoreCall) :
    Answers storage.retrieve c (serve c storage).2
      (retrieve (serve c storage).1) := by
  cases c with
  | create resource data => exact create_answers storage resource data
  | retrieve resource id => exact .retrieved
  | update resource id data => exact update_answers storage resource id data
  | remove resource id => exact remove_answers storage resource id
  | list resource => exact list_answers storage resource

end SimEntityStorage

end Creeper
