/-
What the handler answers over whole runs, on the simulated storage.

The abstract state is an `IdMap` from entity and id to JSON value.
`Meets` is what a response may be and what becomes of the map, clause by
clause: the five operations, and that nothing changes without a 2xx. The
storage `Represents` the map when it has the serialisation of every
value, and every value can be read back from its own.

A step of the handler meets the clauses and keeps the representation
(`serve_meets`), one case for each program of the handler; along a run
this is `crud_semantics`.
-/
import Creeper.Lib.StringArray
import Creeper.Proofs.Crud.Storage

namespace Creeper

open Lib

-- ============================================================== listed ids

/-- The ids a JSON array of numerals decodes to. -/
def decodeIds (body : Str) : Option (List CInt) :=
  (readStrings body).bind (List.mapM isValidInteger)

theorem vectorToJson_eq (ids : List CInt) :
    vectorToJson ids = writeStrings (ids.map fun id => decimalInt id.val) := by
  unfold vectorToJson writeStrings quote
  rw [List.map_map]
  rfl

theorem isValidInteger_decimalInt (id : CInt) :
    isValidInteger (decimalInt id.val) = some id := by
  unfold isValidInteger
  rw [stoi_decimalInt]
  exact if_pos rfl

/-- Numerals are made of plain characters. -/
theorem isPlainChar_of_mem {id : CInt} {c : Char}
    (hc : c ∈ decimalInt id.val) : isPlainChar c := by
  rcases mem_decimalInt hc with hdigit | rfl
  · obtain ⟨hlow, hhigh⟩ := Char.isDigit_iff_toNat.mp hdigit
    have hzero : '0'.toNat = 48 := rfl
    have hnine : '9'.toNat = 57 := rfl
    have hquote : c ≠ '"' := by
      intro heq
      subst heq
      revert hlow
      decide
    have hslash : c ≠ '\\' := by
      intro heq
      subst heq
      revert hhigh
      decide
    have hcontrol : 32 ≤ c.toNat := by omega
    unfold isPlainChar
    rw [decide_eq_true hquote, decide_eq_true hslash, decide_eq_true hcontrol]
    rfl
  · decide

/-- A listing decodes to the ids it was made from. -/
theorem decodeIds_vectorToJson (ids : List CInt) :
    decodeIds (vectorToJson ids) = some ids := by
  have hplain : ∀ s ∈ ids.map fun id => decimalInt id.val,
      s.all isPlainChar := by
    intro s hs
    obtain ⟨id, -, rfl⟩ := List.mem_map.mp hs
    exact List.all_eq_true.mpr fun c hc => isPlainChar_of_mem hc
  have hread : (ids.map fun id => decimalInt id.val).mapM isValidInteger
      = some ids := by
    clear hplain
    induction ids with
    | nil => rfl
    | cons id ids ih =>
        rw [List.map_cons, List.mapM_cons, isValidInteger_decimalInt, ih]
        rfl
  unfold decodeIds
  rw [vectorToJson_eq, readStrings_writeStrings hplain, Option.bind_some,
    hread]

-- ================================================================ the spec

/-- What the handler is for: entity, id, JSON value. -/
abbrev ValueMap (J : Type) := IdMap Str J

/-- `INT_MAX`, as an id. -/
def maxInt : CInt := .ofInt intMax

namespace CrudRequestHandler

variable {J : Type}

/-- What the response to a request may be on a map, and the map after
it. -/
structure Meets (h : CrudRequestHandler J) (m : ValueMap J) (req : Request)
    (res : Response) (m' : ValueMap J) : Prop where
  /-- A POST of a value. -/
  post : getMethod req.method = .post → h.extractEntity req.uri ≠ [] →
    ∀ v, h.Carries req v →
      ((m (h.extractEntity req.uri) maxInt).isSome →
        res.statusCode = 500 ∧ m' = m)
      ∧ (m (h.extractEntity req.uri) maxInt = none →
        ∃ k id, m.IsLast (h.extractEntity req.uri) k ∧ id.val = k.val + 1
          ∧ res.statusCode = 201 ∧ res.body = idBody id
          ∧ m' = m.set (h.extractEntity req.uri) id v)
  /-- A PUT of a value under an id. -/
  put : getMethod req.method = .put → h.extractEntity req.uri ≠ [] →
    ∀ id v, isValidInteger (h.extractId req.uri) = some id →
      h.Carries req v →
        res.statusCode
            = (if (m (h.extractEntity req.uri) id).isSome then 200 else 201)
          ∧ m' = m.set (h.extractEntity req.uri) id v
  /-- A DELETE of an id. -/
  delete : getMethod req.method = .delete → h.extractEntity req.uri ≠ [] →
    h.extractId req.uri ≠ [] →
      (∀ id, isValidInteger (h.extractId req.uri) = some id →
        (m (h.extractEntity req.uri) id).isSome →
          res.statusCode = 204
            ∧ m' = m.unset (h.extractEntity req.uri) id)
      ∧ ((∀ id, isValidInteger (h.extractId req.uri) = some id →
          m (h.extractEntity req.uri) id = none) → res.statusCode = 404)
  /-- A GET of an id. -/
  get : getMethod req.method = .get → h.extractEntity req.uri ≠ [] →
    h.extractId req.uri ≠ [] →
      (∀ id v, isValidInteger (h.extractId req.uri) = some id →
        m (h.extractEntity req.uri) id = some v →
          res.statusCode = 200 ∧ res.body = h.json.serialize v ∧ m' = m)
      ∧ ((∀ id, isValidInteger (h.extractId req.uri) = some id →
          m (h.extractEntity req.uri) id = none) → res.statusCode = 404)
  /-- A GET of the ids. -/
  list : getMethod req.method = .get → h.extractEntity req.uri ≠ [] →
    h.extractId req.uri = [] →
      ((∃ id, (m (h.extractEntity req.uri) id).isSome) →
        res.statusCode = 200 ∧ m' = m ∧ ∃ ids, decodeIds res.body = some ids
          ∧ ids.Nodup ∧ ∀ id, id ∈ ids
            ↔ (m (h.extractEntity req.uri) id).isSome)
      ∧ ((∀ id, m (h.extractEntity req.uri) id = none) →
        res.statusCode = 404)
  /-- No success, no change. -/
  unchanged : ¬ Succeeds res → m' = m
  /-- Without an entity, with another method, with an id that is none, or
  with a body of another type or that does not parse, no success. -/
  refused : ¬ h.ReachesStorage req → ¬ Succeeds res

/-- The storage has the text of every value, and the value can be read
back from it. -/
structure Represents (h : CrudRequestHandler J) (storage : SimEntityStorage)
    (m : ValueMap J) : Prop where
  store : storage.retrieve = m.map h.json.serialize
  readable : ∀ e id v, m e id = some v →
    h.json.parse (h.json.serialize v) = some v

/-- Along the requests, each response meets the clauses on the map so
far, and the storage represents the map after it. -/
def MeetsAlong (h : CrudRequestHandler J) :
    List Request → SimEntityStorage → ValueMap J → Prop
  | [], _, _ => True
  | req :: reqs, storage, m =>
      ∃ m', h.Meets m req (h.serveOnSim req storage).2 m'
        ∧ h.Represents (h.serveOnSim req storage).1 m'
        ∧ MeetsAlong h reqs (h.serveOnSim req storage).1 m'

-- ============================================================ one request

variable {h : CrudRequestHandler J} {storage : SimEntityStorage}
  {m : ValueMap J} {req : Request} {v : J} {id : CInt}

/-- The empty storage represents the empty map. -/
theorem represents_empty :
    h.Represents SimEntityStorage.empty IdMap.empty where
  store := rfl
  readable := fun e id v hv => by cases hv

/-- A value that came in a request can be stored. -/
theorem Represents.set (hrep : h.Represents storage m)
    (hread : h.json.parse (h.json.serialize v) = some v) (e : Str)
    (id : CInt) {storage' : SimEntityStorage} (hstore : storage'.retrieve
      = IdMap.set storage.retrieve e id (h.json.serialize v)) :
    h.Represents storage' (m.set e id v) where
  store := by rw [hstore, hrep.store, IdMap.map_set]
  readable := by
    intro e' id' v' hv'
    by_cases he : e' = e
    · subst he
      rw [IdMap.set_self] at hv'
      rcases upsert_eq_some hv' with ⟨-, rfl⟩ | ⟨-, hold⟩
      · exact hread
      · exact hrep.readable e' id' v' hold
    · rw [IdMap.set_ne he] at hv'
      exact hrep.readable e' id' v' hv'

/-- Ids can be taken away. -/
theorem Represents.unset (hrep : h.Represents storage m) (e : Str)
    (id : CInt) {storage' : SimEntityStorage}
    (hstore : storage'.retrieve = IdMap.unset storage.retrieve e id) :
    h.Represents storage' (m.unset e id) where
  store := by rw [hstore, hrep.store, IdMap.map_unset]
  readable := by
    intro e' id' v' hv'
    by_cases he : e' = e
    · subst he
      rw [IdMap.unset_self] at hv'
      exact hrep.readable e' id' v' (erase_eq_some hv')
    · rw [IdMap.unset_ne he] at hv'
      exact hrep.readable e' id' v' hv'

/-- A storage with the same texts represents the same map. -/
theorem Represents.same (hrep : h.Represents storage m)
    {storage' : SimEntityStorage}
    (hstore : storage'.retrieve = storage.retrieve) :
    h.Represents storage' m :=
  ⟨hstore.trans hrep.store, hrep.readable⟩

/-- What is in use in the storage is in use in the map. -/
theorem Represents.isSome (hrep : h.Represents storage m) (e : Str)
    (id : CInt) : (storage.retrieve e id).isSome = (m e id).isSome := by
  rw [hrep.store]
  exact Option.isSome_map

/-- A value is read back as its own text. -/
theorem Represents.getAnswer (hrep : h.Represents storage m) {e : Str}
    (hv : m e id = some v) :
    h.getAnswer req (storage.retrieve e id)
      = successJson req 200 "OK".toList (h.json.serialize v) := by
  have htext : storage.retrieve e id = some (h.json.serialize v) := by
    rw [hrep.store]
    exact congrArg (Option.map h.json.serialize) hv
  unfold CrudRequestHandler.getAnswer
  rw [htext]
  simp only
  rw [hrep.readable e id v hv]

/-- A request that is refused. -/
theorem meets_refused {res : Response} (hno : ¬ h.ReachesStorage req)
    (hcode : ¬ Succeeds res)
    (hmissing : getMethod req.method = .get
      ∨ getMethod req.method = .delete → h.extractEntity req.uri ≠ [] →
        h.extractId req.uri ≠ [] → res.statusCode = 404) :
    h.Meets m req res m := by
  refine ⟨?_, ?_, ?_, ?_, ?_, fun _ => rfl, fun _ => hcode⟩
  all_goals unfold ReachesStorage at hno
  · intro hmethod hentity v hv
    rw [hmethod] at hno
    exact absurd ⟨hentity, v, hv⟩ hno
  · intro hmethod hentity id v hid hv
    rw [hmethod] at hno
    exact absurd ⟨hentity, by rw [hid]; rfl, v, hv⟩ hno
  · intro hmethod hentity hne
    refine ⟨fun id hid => ?_, fun _ => hmissing (Or.inr hmethod) hentity hne⟩
    rw [hmethod] at hno
    exact absurd ⟨hentity, by rw [hid]; rfl⟩ hno
  · intro hmethod hentity hne
    refine ⟨fun id v hid => ?_, fun _ => hmissing (Or.inl hmethod) hentity hne⟩
    rw [hmethod] at hno
    exact absurd ⟨hentity, Or.inr (by rw [hid]; rfl)⟩ hno
  · intro hmethod hentity hempty
    rw [hmethod] at hno
    exact absurd ⟨hentity, Or.inl hempty⟩ hno

/-- A POST of a value. -/
theorem meets_post (hreach : h.ReachesStorage req)
    (hmethod : getMethod req.method = .post)
    (hrep : h.Represents storage m) (hread : h.ReadsBack req)
    (hv : h.Carries req v) {storage' : SimEntityStorage}
    {result : Option CInt}
    (hans : Answers storage.retrieve
      (.create (h.extractEntity req.uri) (h.json.serialize v)) result
      storage'.retrieve) :
    ∃ m', h.Meets m req (postAnswer req result) m'
      ∧ h.Represents storage' m' := by
  obtain ⟨k, hlast, hk⟩ := hans.of_create
  rw [hrep.store] at hlast
  replace hlast : m.IsLast (h.extractEntity req.uri) k :=
    IdMap.isLast_map.mp hlast
  rcases hk with ⟨hmax, rfl, htexts⟩ | ⟨id, hid, rfl, htexts⟩
  · have hmem := hlast.mem_of_max hmax
    obtain rfl : k = maxInt := Subtype.ext hmax
    refine ⟨m, ⟨?_, ?_, ?_, ?_, ?_, fun _ => rfl,
      fun hno => absurd hreach hno⟩, hrep.same htexts⟩
    · intro _ _ v' hv'
      refine ⟨fun _ => ⟨rfl, rfl⟩, fun hnone => ?_⟩
      rw [hnone] at hmem
      cases hmem
    · exact of_other_method hmethod (by decide)
    · exact of_other_method hmethod (by decide)
    · exact of_other_method hmethod (by decide)
    · exact of_other_method hmethod (by decide)
  · have hfree : ¬ (m (h.extractEntity req.uri) maxInt).isSome := by
      intro hmem
      have hmax := hlast.max_of_mem (by rfl) hmem
      exact CInt.val_ne_max hid (by rw [hmax]; rfl)
    refine ⟨_, ⟨?_, ?_, ?_, ?_, ?_, ?_, fun hno => absurd hreach hno⟩,
      hrep.set (hread v (Or.inr hmethod) hv) _ id htexts⟩
    · intro _ _ v' hv'
      obtain rfl : v = v' := Option.some.inj (hv.2.symm.trans hv'.2)
      exact ⟨fun hmem => absurd hmem hfree,
        fun _ => ⟨k, id, hlast, hid, rfl, rfl, rfl⟩⟩
    · exact of_other_method hmethod (by decide)
    · exact of_other_method hmethod (by decide)
    · exact of_other_method hmethod (by decide)
    · exact of_other_method hmethod (by decide)
    · exact fun hno => absurd (succeeds_of_code 201 rfl (by decide)) hno

/-- A GET of an id. -/
theorem meets_get (hreach : h.ReachesStorage req)
    (hmethod : getMethod req.method = .get)
    (hid : isValidInteger (h.extractId req.uri) = some id)
    (hrep : h.Represents storage m) :
    h.Meets m req (h.getAnswer req
      (storage.retrieve (h.extractEntity req.uri) id)) m := by
  have hne : h.extractId req.uri ≠ [] := by
    intro hempty
    rw [hempty] at hid
    cases hid
  refine ⟨?_, ?_, ?_, ?_, ?_, fun _ => rfl, fun hno => absurd hreach hno⟩
  · exact of_other_method hmethod (by decide)
  · exact of_other_method hmethod (by decide)
  · exact of_other_method hmethod (by decide)
  · intro _ _ _
    constructor
    · intro id' v hid' hv
      obtain rfl : id = id' := Option.some.inj (hid.symm.trans hid')
      rw [hrep.getAnswer hv]
      exact ⟨rfl, rfl, rfl⟩
    · intro hnone
      have hfree : storage.retrieve (h.extractEntity req.uri) id = none := by
        rw [hrep.store]
        exact congrArg (Option.map h.json.serialize) (hnone id hid)
      rw [hfree]
      rfl
  · exact fun _ _ hempty => absurd hempty hne

/-- A GET of the ids. -/
theorem meets_list (hreach : h.ReachesStorage req)
    (hmethod : getMethod req.method = .get)
    (hempty : h.extractId req.uri = []) (hrep : h.Represents storage m)
    {ids : List CInt} (hnodup : ids.Nodup)
    (hmem : ∀ id, id ∈ ids
      ↔ (storage.retrieve (h.extractEntity req.uri) id).isSome) :
    h.Meets m req (listAnswer req ids) m := by
  refine ⟨?_, ?_, ?_, ?_, ?_, fun _ => rfl, fun hno => absurd hreach hno⟩
  · exact of_other_method hmethod (by decide)
  · exact of_other_method hmethod (by decide)
  · exact of_other_method hmethod (by decide)
  · exact fun _ _ hne => absurd hempty hne
  · intro _ _ _
    simp only [hrep.isSome] at hmem
    constructor
    · intro hsome
      obtain ⟨id, hid⟩ := hsome
      have hne : ids ≠ [] := List.ne_nil_of_mem ((hmem id).mpr hid)
      unfold listAnswer
      rw [if_neg hne]
      exact ⟨rfl, rfl, ids, decodeIds_vectorToJson ids, hnodup, hmem⟩
    · intro hnone
      have hnil : ids = [] := by
        apply List.eq_nil_iff_forall_not_mem.mpr
        intro id hid
        have hsome := (hmem id).mp hid
        rw [hnone id] at hsome
        cases hsome
      unfold listAnswer
      rw [if_pos hnil]
      rfl

/-- A PUT of a value. -/
theorem meets_put (hreach : h.ReachesStorage req)
    (hmethod : getMethod req.method = .put)
    (hid : isValidInteger (h.extractId req.uri) = some id)
    (hv : h.Carries req v) (hrep : h.Represents storage m) :
    h.Meets m req (putAnswer req
        (storage.retrieve (h.extractEntity req.uri) id) true)
      (m.set (h.extractEntity req.uri) id v) := by
  have hsame := hrep.isSome (h.extractEntity req.uri) id
  refine ⟨?_, ?_, ?_, ?_, ?_, ?_, fun hno => absurd hreach hno⟩
  · exact of_other_method hmethod (by decide)
  · intro _ _ id' v' hid' hv'
    obtain rfl : id = id' := Option.some.inj (hid.symm.trans hid')
    obtain rfl : v = v' := Option.some.inj (hv.2.symm.trans hv'.2)
    unfold putAnswer
    rw [hsame, if_neg (by decide)]
    refine ⟨?_, rfl⟩
    split <;> rfl
  · exact of_other_method hmethod (by decide)
  · exact of_other_method hmethod (by decide)
  · exact of_other_method hmethod (by decide)
  · intro hno
    exfalso
    apply hno
    unfold putAnswer
    rw [if_neg (by decide)]
    split
    · exact succeeds_of_code 200 rfl (by decide)
    · exact succeeds_of_code 201 rfl (by decide)

/-- A DELETE of an id. -/
theorem meets_delete (hreach : h.ReachesStorage req)
    (hmethod : getMethod req.method = .delete)
    (hid : isValidInteger (h.extractId req.uri) = some id)
    (hrep : h.Represents storage m) :
    h.Meets m req (deleteAnswer req
        (storage.retrieve (h.extractEntity req.uri) id).isSome)
      (m.unset (h.extractEntity req.uri) id) := by
  rw [hrep.isSome]
  refine ⟨?_, ?_, ?_, ?_, ?_, ?_, fun hno => absurd hreach hno⟩
  · exact of_other_method hmethod (by decide)
  · exact of_other_method hmethod (by decide)
  · intro _ _ _
    constructor
    · intro id' hid' hsome
      obtain rfl : id = id' := Option.some.inj (hid.symm.trans hid')
      rw [hsome]
      exact ⟨rfl, rfl⟩
    · intro hnone
      rw [hnone id hid]
      rfl
  · exact of_other_method hmethod (by decide)
  · exact of_other_method hmethod (by decide)
  · intro hno
    cases hm : m (h.extractEntity req.uri) id with
    | none => exact IdMap.unset_of_none hm
    | some v =>
        rw [hm] at hno
        exact absurd (succeeds_of_code 204 rfl (by decide)) hno

/-- A request handled on a storage that represents a map. -/
theorem serve_meets (hrep : h.Represents storage m)
    (hread : h.ReadsBack req) :
    ∃ m', h.Meets m req (h.serveOnSim req storage).2 m'
      ∧ h.Represents (h.serveOnSim req storage).1 m' := by
  have hhandled := h.handled req
  have hreaches := h.handled req
  unfold serveOnSim
  generalize h.handleRequest req = p at hhandled hreaches ⊢
  cases hhandled with
  | refused hno hcode hmissing =>
      exact ⟨m, meets_refused hno hcode hmissing, hrep⟩
  | post hentity hmethod hv =>
      exact meets_post hreaches.reaches hmethod hrep hread hv
        (SimEntityStorage.sim_answers storage _)
  | get hentity hmethod hid =>
      exact ⟨m, meets_get hreaches.reaches hmethod hid hrep, hrep⟩
  | list hentity hmethod hempty =>
      obtain ⟨hnodup, hmem, -⟩ := (SimEntityStorage.sim_answers storage
        (.list (h.extractEntity req.uri))).of_list
      exact ⟨m, meets_list hreaches.reaches hmethod hempty hrep hnodup hmem,
        hrep⟩
  | @put id v hentity hmethod hid hv =>
      obtain ⟨htrue, htexts⟩ := (SimEntityStorage.sim_answers storage
        (.update (h.extractEntity req.uri) id (h.json.serialize v))).of_update
      refine ⟨_, ?_, hrep.set (hread v (Or.inl hmethod) hv) _ id htexts⟩
      have hmeets := meets_put hreaches.reaches hmethod hid hv hrep
      rw [← htrue] at hmeets
      exact hmeets
  | @delete id hentity hmethod hid =>
      obtain ⟨hsome, htexts⟩ := (SimEntityStorage.sim_answers storage
        (.remove (h.extractEntity req.uri) id)).of_remove
      refine ⟨_, ?_, hrep.unset _ id htexts⟩
      have hmeets := meets_delete hreaches.reaches hmethod hid hrep
      rw [← hsome] at hmeets
      exact hmeets

-- ============================================================== whole runs

/-- Along any requests, from a storage that represents a map. -/
theorem meetsAlong_of_represents {reqs : List Request}
    (hread : ∀ req ∈ reqs, h.ReadsBack req)
    (hrep : h.Represents storage m) : h.MeetsAlong reqs storage m := by
  induction reqs generalizing storage m with
  | nil => trivial
  | cons req reqs ih =>
      obtain ⟨hfirst, hrest⟩ := List.forall_mem_cons.mp hread
      obtain ⟨m', hmeets, hrep'⟩ := serve_meets hrep hfirst
      exact ⟨m', hmeets, hrep', ih hrest hrep'⟩

/-- CRUD semantics. From the empty storage and the empty map, along any
sequence of requests whose values are read back, every response and every
state of the storage is the one the abstract map calls for. -/
theorem crud_semantics (h : CrudRequestHandler J) (reqs : List Request)
    (hread : ∀ req ∈ reqs, h.ReadsBack req) :
    h.MeetsAlong reqs SimEntityStorage.empty IdMap.empty :=
  meetsAlong_of_represents hread represents_empty

end CrudRequestHandler

theorem crud_semantics_numbers :
    api.MeetsAlong
      [jsonRequest "POST" "/api/a" "5", jsonRequest "PUT" "/api/a/-7" "6",
        jsonRequest "GET" "/api/a" "", jsonRequest "DELETE" "/api/a/1" "",
        jsonRequest "GET" "/api/a/1" ""]
      SimEntityStorage.empty IdMap.empty :=
  CrudRequestHandler.crud_semantics api _ fun req _ => api_readsBack req

end Creeper
