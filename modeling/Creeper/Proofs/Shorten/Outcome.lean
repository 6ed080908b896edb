/-
What one request of the shortener can do to the two stores.

`PostOutcome` and `GetOutcome` list the ends a POST and a GET can come
to, each with the lookups that led there, the stores after it and the
response, where calls may fail as `perform` has it. `post_outcome` and
`getRedirect_outcome` read them off the ends of the handler's program.

Whatever the request, the database changes in one way and Redis in one
way: `serve_db_cases` and `serve_redis_cases` are what an invariant of
the stores is a case analysis of.
-/
import Creeper.Proofs.Shorten.Ends

namespace Creeper

open Lib

namespace ShortenRequestHandler

variable (h : ShortenRequestHandler)

-- ================================================================== codes

/-- Every code has six characters, whatever the hash. -/
@[simp] theorem base62OfHash_length (num : UInt64) :
    (base62OfHash num).length = shortUrlLength := by
  rw [base62OfHash, List.length_take, List.length_leftpad]
  exact Nat.min_eq_left (Nat.le_max_left ..)

-- least significant digit first, behind the padding
example : base62OfHash 63 = "000011".toList := by decide +kernel

@[simp] theorem candidateShort_length (longUrl : Str) (attempt : Nat) :
    (h.candidateShort longUrl attempt).length = shortUrlLength :=
  base62OfHash_length _

-- ==================================================================== POST

/-- Attempt `j` of a POST of `u` collides: its lookup works and finds
another URL. -/
def Collides (φ : Faults) (u : Str) (w : World) (j : Nat) : Prop :=
  φ j (.dbLookup (h.candidateShort u j)) = false
    ∧ ∃ v, w.db (h.candidateShort u j) = some v ∧ v ≠ u

/-- The ends of a POST. In each, the attempts before the last one
collide. -/
inductive PostOutcome (φ : Faults) (request : Request) (w : World) :
    World × Response → Prop
  /-- The candidate already maps to the URL. -/
  | reused (k : Nat) (hk : k < kMaxAttempts)
      (hbefore : ∀ j < k, h.Collides φ request.body w j)
      (hlookup : φ k (.dbLookup (h.candidateShort request.body k)) = false)
      (hdb : w.db (h.candidateShort request.body k) = some request.body) :
      PostOutcome φ request w
        (w, postOk request (h.candidateShort request.body k))
  /-- The lookup found nothing, or failed, and the store worked. -/
  | stored (k : Nat) (hk : k < kMaxAttempts)
      (hbefore : ∀ j < k, h.Collides φ request.body w j)
      (hlookup : φ k (.dbLookup (h.candidateShort request.body k)) = true
        ∨ w.db (h.candidateShort request.body k) = none)
      (hstore : φ (k + 1)
        (.dbStore (h.candidateShort request.body k) request.body) = false) :
      PostOutcome φ request w
        ({ w with
            db := upsert w.db (h.candidateShort request.body k)
              request.body },
          postOk request (h.candidateShort request.body k))
  /-- The lookup found nothing, or failed, and so did the store. -/
  | storeFailed (k : Nat) (hk : k < kMaxAttempts)
      (hbefore : ∀ j < k, h.Collides φ request.body w j)
      (hlookup : φ k (.dbLookup (h.candidateShort request.body k)) = true
        ∨ w.db (h.candidateShort request.body k) = none)
      (hstore : φ (k + 1)
        (.dbStore (h.candidateShort request.body k) request.body) = true) :
      PostOutcome φ request w (w, postStoreFailed)
  /-- Every attempt collided. -/
  | exhausted
      (hbefore : ∀ j < kMaxAttempts, h.Collides φ request.body w j) :
      PostOutcome φ request w (w, postExhausted)

/-- The clients that may fail leave the stores as they are when they are
read. -/
theorem faulty_reading (φ : Faults) : Reading (faulty φ) :=
  ⟨fun _ _ _ => rfl, fun _ _ _ => rfl⟩

/-- A lookup that finds something works, and the database has it. -/
theorem faulty_found {φ : Faults} {n : Nat} {code url : Str} {w : World}
    (h : (faulty φ n (.dbLookup code) w).2 = some url) :
    φ n (.dbLookup code) = false ∧ w.db code = some url := by
  simpa [faulty, perform] using h

/-- A lookup that finds nothing failed, or the database has nothing. -/
theorem faulty_missed {φ : Faults} {n : Nat} {code : Str} {w : World}
    (h : (faulty φ n (.dbLookup code) w).2 = none) :
    φ n (.dbLookup code) = true ∨ w.db code = none := by
  by_cases hf : φ n (.dbLookup code) = true
  · exact Or.inl hf
  · exact Or.inr (by simpa [faulty, perform, hf] using h)

/-- An attempt that finds another URL collides. -/
theorem FindsOther.collides {φ : Faults} {u : Str} {w : World} {j : Nat}
    (hfinds : h.FindsOther (faulty φ) u w j) : h.Collides φ u w j := by
  obtain ⟨v, hv, hne⟩ := hfinds
  exact ⟨(faulty_found hv).1, v, (faulty_found hv).2, hne⟩

/-- Every POST ends in an outcome. -/
theorem post_outcome (φ : Faults) {request : Request}
    (hpost : request.method = "POST".toList) (w : World) :
    h.PostOutcome φ request w (h.serve φ request w) := by
  have hend := h.post_end (faulty_reading φ) hpost w
  change h.PostEnd (faulty φ) request w (h.serve φ request w) at hend
  generalize h.serve φ request w = end_ at hend
  cases hend with
  | reused k hk hbefore hlookup =>
      obtain ⟨hfine, hdb⟩ := faulty_found hlookup
      exact .reused k hk (fun j hj => (hbefore j hj).collides) hfine hdb
  | stored k hk hbefore hlookup hstore =>
      have hfine : φ (k + 1) (.dbStore (h.candidateShort request.body k)
          request.body) = false := by
        cases hf : φ (k + 1) (.dbStore (h.candidateShort request.body k)
            request.body) with
        | false => rfl
        | true => simp [faulty, perform, hf] at hstore
      simpa [faulty, perform, hfine] using PostOutcome.stored (h := h) k hk
        (fun j hj => (hbefore j hj).collides) (faulty_missed hlookup) hfine
  | storeFailed k hk hbefore hlookup hstore =>
      have hfailed : φ (k + 1) (.dbStore (h.candidateShort request.body k)
          request.body) = true := by
        cases hf : φ (k + 1) (.dbStore (h.candidateShort request.body k)
            request.body) with
        | true => rfl
        | false => simp [faulty, perform, hf] at hstore
      simpa [faulty, perform, hfailed] using PostOutcome.storeFailed (h := h)
        k hk (fun j hj => (hbefore j hj).collides) (faulty_missed hlookup)
        hfailed
  | exhausted hbefore =>
      exact .exhausted fun j hj => (hbefore j hj).collides

-- ===================================================================== GET

/-- The ends of a GET of a short code. -/
inductive GetOutcome (φ : Faults) (request : Request) (code : Str)
    (w : World) : World × Response → Prop
  /-- Redis has the code. -/
  | hit (url : Str) (hredis : w.redis code = some url) :
      GetOutcome φ request code w (w, redirect request url)
  /-- Redis is missed, the database has the code, and Redis is
  filled. -/
  | filled (url : Str) (hdb : w.db code = some url) :
      GetOutcome φ request code w
        ({ w with redis := upsert w.redis code url }, redirect request url)
  /-- Redis is missed, and the database has nothing or fails. -/
  | missing (hmiss : φ 1 (.dbLookup code) = true ∨ w.db code = none) :
      GetOutcome φ request code w (w, stockResponse .c404)

/-- An end of the resolution of a short code is an outcome. -/
theorem GetEnd.outcome {φ : Faults} {request : Request} {code : Str}
    {w : World} {end_ : World × Response}
    (hend : GetEnd (faulty φ) request code w end_) :
    GetOutcome φ request code w end_ := by
  cases hend with
  | hit url hget =>
      have hhit : φ 0 (.redisGet code) = false ∧ w.redis code = some url := by
        simpa [faulty, perform] using hget
      exact .hit url hhit.2
  | filled url hlookup => exact .filled url (faulty_found hlookup).2
  | missing hlookup => exact .missing (faulty_missed hlookup)

/-- The resolution of a short code ends in an outcome. -/
theorem getRedirect_outcome (φ : Faults) (request : Request) (code : Str)
    (w : World) :
    GetOutcome φ request code w
      (Prog.eval (faulty φ) 0 (getRedirect request code) w) :=
  (getRedirect_end (faulty_reading φ) request code w).outcome

/-- A URI `base_uri + '/' + code` with a code of six characters is
resolved. -/
theorem serve_get {request : Request} {code : Str}
    (hget : request.method = "GET".toList)
    (huri : request.uri = h.baseUri ++ '/' :: code)
    (hcode : code.length = shortUrlLength) (φ : Faults) (w : World) :
    h.serve φ request w
      = Prog.eval (faulty φ) 0 (getRedirect request code) w :=
  h.serveBy_get hget huri hcode (faulty φ) w

-- ========================================================== any request

/-- The effect of a request on the stores, whatever its method and URI:
that of a POST, that of the resolution of some code, or none. -/
theorem serve_cases (φ : Faults) (request : Request) (w : World) :
    (request.method = "POST".toList
        ∧ h.PostOutcome φ request w (h.serve φ request w))
      ∨ (∃ code, GetOutcome φ request code w (h.serve φ request w))
      ∨ (h.serve φ request w).1 = w := by
  rcases h.serveBy_cases (faulty_reading φ) request w with
    ⟨hpost, -⟩ | ⟨code, hend⟩ | hsame
  · exact Or.inl ⟨hpost, h.post_outcome φ hpost w⟩
  · exact Or.inr (Or.inl ⟨code, hend.outcome⟩)
  · exact Or.inr (Or.inr hsame)

/-- The database changes only by the store of a POST, under the first
candidate that does not collide. -/
theorem serve_db_cases (φ : Faults) (request : Request) (w : World) :
    (h.serve φ request w).1.db = w.db
      ∨ ∃ k < kMaxAttempts,
        request.method = "POST".toList
        ∧ (∀ j < k, h.Collides φ request.body w j)
        ∧ (φ k (.dbLookup (h.candidateShort request.body k)) = true
          ∨ w.db (h.candidateShort request.body k) = none)
        ∧ φ (k + 1)
            (.dbStore (h.candidateShort request.body k) request.body)
          = false
        ∧ h.serve φ request w
          = ({ w with
                db := upsert w.db (h.candidateShort request.body k)
                  request.body },
              postOk request (h.candidateShort request.body k)) := by
  rcases h.serve_cases φ request w with
    ⟨hpost, hout⟩ | ⟨code, hout⟩ | hsame
  · generalize h.serve φ request w = end_ at hout
    cases hout with
    | reused => exact Or.inl rfl
    | stored k hk hbefore hlookup hstore =>
        exact Or.inr ⟨k, hk, hpost, hbefore, hlookup, hstore, rfl⟩
    | storeFailed => exact Or.inl rfl
    | exhausted => exact Or.inl rfl
  · generalize h.serve φ request w = end_ at hout
    cases hout <;> exact Or.inl rfl
  · exact Or.inl (by rw [hsame])

/-- Redis changes only by taking over an entry of the database. -/
theorem serve_redis_cases (φ : Faults) (request : Request) (w : World) :
    (h.serve φ request w).1.redis = w.redis
      ∨ ∃ code url, w.db code = some url
        ∧ (h.serve φ request w).1
          = { w with redis := upsert w.redis code url } := by
  rcases h.serve_cases φ request w with
    ⟨-, hout⟩ | ⟨code, hout⟩ | hsame
  · generalize h.serve φ request w = end_ at hout
    cases hout <;> exact Or.inl rfl
  · generalize h.serve φ request w = end_ at hout
    cases hout with
    | hit => exact Or.inl rfl
    | filled url hdb => exact Or.inr ⟨code, url, hdb, rfl⟩
    | missing => exact Or.inl rfl
  · exact Or.inl (by rw [hsame])

end ShortenRequestHandler

end Creeper
