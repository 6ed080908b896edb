/-
What a request asks of the storage, once and for all.

`ReachesStorage` are the requests that pass every check the handler
makes by itself. `handled` says what becomes of any request: it is
refused, with a status that is no success (and is 404 where only the id
was wrong with a GET or DELETE), or it is one of the five programs the
handler has. Everything else about the handler is a case
analysis of `Handled`.
-/
import Creeper.Crud

namespace Creeper

open Lib

namespace CrudRequestHandler

variable {J : Type} {h : CrudRequestHandler J} {req : Request}

/-- The request carries a JSON value. -/
def Carries (h : CrudRequestHandler J) (req : Request) (v : J) : Prop :=
  isJsonContentType req = true ∧ h.json.parse req.body = some v

/-- What the request asks to be written is read back as it was: parsing
its own text again gives the same value. `boost::json` does not promise
that of every value: by default it is imprecise about some numbers. -/
def ReadsBack (h : CrudRequestHandler J) (req : Request) : Prop :=
  ∀ v, getMethod req.method = .put ∨ getMethod req.method = .post →
    h.Carries req v → h.json.parse (h.json.serialize v) = some v

/-- The handler's own checks let the request through to its storage. -/
def ReachesStorage (h : CrudRequestHandler J) (req : Request) : Prop :=
  h.extractEntity req.uri ≠ [] ∧
    match getMethod req.method with
    | .post => ∃ v, h.Carries req v
    | .get => h.extractId req.uri = []
        ∨ (isValidInteger (h.extractId req.uri)).isSome
    | .put => (isValidInteger (h.extractId req.uri)).isSome
        ∧ ∃ v, h.Carries req v
    | .delete => (isValidInteger (h.extractId req.uri)).isSome
    | .invalidMethod => False

/-- A 2xx. -/
def Succeeds (res : Response) : Prop :=
  200 ≤ res.statusCode ∧ res.statusCode < 300

instance (res : Response) : Decidable (Succeeds res) :=
  inferInstanceAs (Decidable (_ ∧ _))

theorem succeeds_of_code {res : Response} (n : Int)
    (hcode : res.statusCode = n) (hn : 200 ≤ n ∧ n < 300) :
    Succeeds res := by
  unfold Succeeds
  rw [hcode]
  exact hn

/-- The programs of the handler, each with what its request passed. -/
inductive Handled (h : CrudRequestHandler J) (req : Request) :
    StoreProg → Prop
  | refused {res : Response} (hno : ¬ h.ReachesStorage req)
      (hcode : ¬ Succeeds res)
      (hmissing : getMethod req.method = .get
        ∨ getMethod req.method = .delete → h.extractEntity req.uri ≠ [] →
          h.extractId req.uri ≠ [] → res.statusCode = 404) :
      Handled h req (.ret res)
  | post {v : J} (hentity : h.extractEntity req.uri ≠ [])
      (hmethod : getMethod req.method = .post) (hv : h.Carries req v) :
      Handled h req
        (.call (.create (h.extractEntity req.uri) (h.json.serialize v))
          fun result => .ret (postAnswer req result))
  | get {id : CInt} (hentity : h.extractEntity req.uri ≠ [])
      (hmethod : getMethod req.method = .get)
      (hid : isValidInteger (h.extractId req.uri) = some id) :
      Handled h req
        (.call (.retrieve (h.extractEntity req.uri) id)
          fun result => .ret (h.getAnswer req result))
  | list (hentity : h.extractEntity req.uri ≠ [])
      (hmethod : getMethod req.method = .get)
      (hid : h.extractId req.uri = []) :
      Handled h req
        (.call (.list (h.extractEntity req.uri))
          fun ids => .ret (listAnswer req ids))
  | put {id : CInt} {v : J} (hentity : h.extractEntity req.uri ≠ [])
      (hmethod : getMethod req.method = .put)
      (hid : isValidInteger (h.extractId req.uri) = some id)
      (hv : h.Carries req v) :
      Handled h req (h.putStore req id v)
  | delete {id : CInt} (hentity : h.extractEntity req.uri ≠ [])
      (hmethod : getMethod req.method = .delete)
      (hid : isValidInteger (h.extractId req.uri) = some id) :
      Handled h req
        (.call (.remove (h.extractEntity req.uri) id)
          fun result => .ret (deleteAnswer req result))

-- ============================================================= the methods

theorem isValidInteger_nil : isValidInteger [] = none := rfl

/-- Nothing is carried under another content type. -/
theorem not_carries_of_type (hjson : isJsonContentType req = false) (v : J) :
    ¬ h.Carries req v := by
  intro hv
  rw [hv.1] at hjson
  cases hjson

/-- Nothing is carried by a body that does not parse. -/
theorem not_carries_of_body (hparse : h.json.parse req.body = none) (v : J) :
    ¬ h.Carries req v := by
  intro hv
  rw [hv.2] at hparse
  cases hparse

/-- A request has one method. -/
theorem of_other_method {method method' : HttpMethod} {P : Prop}
    (hmethod : getMethod req.method = method) (hne : method ≠ method')
    (h : getMethod req.method = method') : P :=
  absurd (hmethod.symm.trans h) hne

/-- A method that is neither `GET` nor `DELETE`. -/
theorem not_get_or_delete {method : HttpMethod} {P : Prop}
    (hmethod : getMethod req.method = method) (hget : method ≠ .get)
    (hdelete : method ≠ .delete) (h : getMethod req.method = .get
      ∨ getMethod req.method = .delete) : P := by
  rcases h with h | h
  · exact of_other_method hmethod hget h
  · exact of_other_method hmethod hdelete h

theorem handled_post (hentity : h.extractEntity req.uri ≠ [])
    (hmethod : getMethod req.method = .post) :
    h.Handled req (h.handlePost req) := by
  have hno : (∀ v, ¬ h.Carries req v) → ¬ h.ReachesStorage req := by
    intro hnone hreach
    unfold ReachesStorage at hreach
    rw [hmethod] at hreach
    obtain ⟨-, v, hv⟩ := hreach
    exact hnone v hv
  unfold handlePost
  split
  · next hjson =>
    exact .refused (hno (not_carries_of_type hjson)) (by decide)
      (not_get_or_delete hmethod (by decide) (by decide))
  · next hjson =>
    split
    · next hparse =>
      exact .refused (hno (not_carries_of_body hparse)) (by decide)
        (not_get_or_delete hmethod (by decide) (by decide))
    · next v hparse =>
      exact .post hentity hmethod ⟨(Bool.not_eq_false _).mp hjson, hparse⟩

theorem handled_get (hentity : h.extractEntity req.uri ≠ [])
    (hmethod : getMethod req.method = .get) :
    h.Handled req (h.handleGet req) := by
  unfold handleGet
  simp only
  split
  · next hid =>
    split
    · next hnone =>
      refine .refused (fun hreach => ?_) (by decide) fun _ _ _ => rfl
      unfold ReachesStorage at hreach
      rw [hmethod] at hreach
      rcases hreach.2 with hempty | hsome
      · exact hid hempty
      · rw [hnone] at hsome
        cases hsome
    · next id hid => exact .get hentity hmethod hid
  · next hid => exact .list hentity hmethod (not_not.mp hid)

theorem handled_put (hentity : h.extractEntity req.uri ≠ [])
    (hmethod : getMethod req.method = .put) :
    h.Handled req (h.handlePut req) := by
  have hreach : h.ReachesStorage req →
      (isValidInteger (h.extractId req.uri)).isSome
        ∧ ∃ v, h.Carries req v := by
    intro hreach
    unfold ReachesStorage at hreach
    rw [hmethod] at hreach
    exact hreach.2
  unfold handlePut
  simp only
  split
  · next hne =>
    split
    · next hnone =>
      refine .refused (fun hr => ?_) (by decide)
        (not_get_or_delete hmethod (by decide) (by decide))
      have hsome := (hreach hr).1
      rw [hnone] at hsome
      cases hsome
    · next id hid =>
      split
      · next hjson =>
        refine .refused (fun hr => ?_) (by decide)
          (not_get_or_delete hmethod (by decide) (by decide))
        obtain ⟨v, hv⟩ := (hreach hr).2
        exact not_carries_of_type hjson v hv
      · next hjson =>
        split
        · next hparse =>
          refine .refused (fun hr => ?_) (by decide)
            (not_get_or_delete hmethod (by decide) (by decide))
          obtain ⟨v, hv⟩ := (hreach hr).2
          exact not_carries_of_body hparse v hv
        · next v hparse =>
          exact .put hentity hmethod hid
            ⟨(Bool.not_eq_false _).mp hjson, hparse⟩
  · next hempty =>
    refine .refused (fun hr => ?_) (by decide)
      (not_get_or_delete hmethod (by decide) (by decide))
    have hsome := (hreach hr).1
    rw [not_not.mp hempty, isValidInteger_nil] at hsome
    cases hsome

theorem handled_delete (hentity : h.extractEntity req.uri ≠ [])
    (hmethod : getMethod req.method = .delete) :
    h.Handled req (h.handleDelete req) := by
  have hreach : h.ReachesStorage req →
      (isValidInteger (h.extractId req.uri)).isSome := by
    intro hreach
    unfold ReachesStorage at hreach
    rw [hmethod] at hreach
    exact hreach.2
  unfold handleDelete
  simp only
  split
  · split
    · next hnone =>
      refine .refused (fun hr => ?_) (by decide) fun _ _ _ => rfl
      have hsome := hreach hr
      rw [hnone] at hsome
      cases hsome
    · next id hid => exact .delete hentity hmethod hid
  · next hempty =>
    refine .refused (fun hr => ?_) (by decide) fun _ _ hne => absurd hne hempty
    have hsome := hreach hr
    rw [not_not.mp hempty, isValidInteger_nil] at hsome
    cases hsome

-- ============================================================= the outcome

/-- What becomes of a request. -/
theorem handled (h : CrudRequestHandler J) (req : Request) :
    h.Handled req (h.handleRequest req) := by
  unfold handleRequest
  split
  · next hentity =>
    exact .refused (fun hr => hr.1 hentity) (by decide)
      fun _ hne => absurd hentity hne
  · next hentity =>
    split
    · next hmethod => exact handled_post hentity hmethod
    · next hmethod => exact handled_get hentity hmethod
    · next hmethod => exact handled_put hentity hmethod
    · next hmethod => exact handled_delete hentity hmethod
    · next hmethod =>
      refine .refused (fun hr => ?_) (by decide)
        (not_get_or_delete hmethod (by decide) (by decide))
      unfold ReachesStorage at hr
      rw [hmethod] at hr
      exact hr.2

/-- All calls of a request are about its entity. -/
theorem handleRequest_resource (h : CrudRequestHandler J) (req : Request) :
    (h.handleRequest req).AllCalls
      fun c => c.resource = h.extractEntity req.uri := by
  have hhandled := h.handled req
  generalize h.handleRequest req = p at hhandled ⊢
  cases hhandled with
  | refused => trivial
  | post => exact ⟨rfl, fun _ => trivial⟩
  | get => exact ⟨rfl, fun _ => trivial⟩
  | list => exact ⟨rfl, fun _ => trivial⟩
  | put => exact ⟨rfl, fun _ => ⟨rfl, fun _ => trivial⟩⟩
  | delete => exact ⟨rfl, fun _ => trivial⟩

/-- A program that begins with a call has been let through. -/
theorem Handled.reaches {c : StoreCall} {k : c.Reply → StoreProg}
    (h₀ : h.Handled req (.call c k)) : h.ReachesStorage req := by
  generalize hp : Prog.call c k = p at h₀
  cases h₀ with
  | refused => cases hp
  | post hentity hmethod hv =>
      refine ⟨hentity, ?_⟩
      rw [hmethod]
      exact ⟨_, hv⟩
  | get hentity hmethod hid =>
      refine ⟨hentity, ?_⟩
      rw [hmethod]
      exact Or.inr (by rw [hid]; rfl)
  | list hentity hmethod hid =>
      refine ⟨hentity, ?_⟩
      rw [hmethod]
      exact Or.inl hid
  | put hentity hmethod hid hv =>
      refine ⟨hentity, ?_⟩
      rw [hmethod]
      exact ⟨by rw [hid]; rfl, _, hv⟩
  | delete hentity hmethod hid =>
      refine ⟨hentity, ?_⟩
      rw [hmethod]
      exact (by rw [hid]; rfl)

/-- A request either makes no call or begins with one. -/
theorem handleRequest_cases (h : CrudRequestHandler J) (req : Request) :
    (¬ h.ReachesStorage req ∧ ∃ res, h.handleRequest req = .ret res)
      ∨ (h.ReachesStorage req
        ∧ ∃ c k, h.handleRequest req = .call c k) := by
  have hhandled := h.handled req
  generalize h.handleRequest req = p at hhandled ⊢
  cases p with
  | ret res =>
      cases hhandled with
      | refused hno => exact Or.inl ⟨hno, _, rfl⟩
  | call c k => exact Or.inr ⟨hhandled.reaches, c, k, rfl⟩

end CrudRequestHandler

-- ======================================================= a small instance

/-- JSON texts that are natural numbers. -/
def numbers : Json Nat := ⟨readDecimal, decimal⟩

/-- The handler at `/api`. -/
def api : CrudRequestHandler Nat := ⟨"/api".toList, fun _ _ => none, numbers⟩

/-- Numerals are read back. -/
theorem api_readsBack (req : Request) : api.ReadsBack req :=
  fun v _ _ => readDecimal_decimal v

/-- The storage in `/data`. -/
def dataStorage : RealEntityStorage := ⟨"/data".toList⟩

/-- A system that iterates directories in the order of the names. -/
def plainSystem : FileSystem := ⟨[], 255, by decide, id, fun _ => .refl _⟩

/-- A request with a JSON content type. -/
def jsonRequest (method uri body : String) : Request :=
  { method := method.toList, uri := uri.toList, version := httpVersion
    headers := [⟨"Content-Type".toList, "application/json".toList⟩]
    body := body.toList, valid := true }

end Creeper
