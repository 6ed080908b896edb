/-
What a request of the shortener comes to, whatever serves its calls.

The two clients need only leave the stores as they are when they are
read (`Reading`). A POST then ends at its first candidate that is free
or that has its URL (`PostEnd`), and the resolution of a code with what
Redis or the database has for it (`GetEnd`); `post_end` and
`getRedirect_end` say that the handler's own program always ends so, and
`serveBy_cases` that any request does the one, the other, or nothing.
Nothing after this file unfolds the attempt loop, and that two POSTs of
a URL stop at the same attempt is `search_unique`.

# The numbering of calls

Every attempt that collides makes one call, so the lookup of attempt
`k` is call `k` of its request and the store after it is call `k + 1`.
The induction of `postAttempt_end` carries exactly this: with `left`
attempts to go the next call has number `5 - left`.
-/
import Creeper.Shorten

namespace Creeper

open Lib

/-- The clients leave the stores as they are when they are read. -/
structure Reading {σ : Type} (srv : Nat → Server Call Call.Reply σ) :
    Prop where
  redisGet : ∀ n code s, (srv n (.redisGet code) s).1 = s
  dbLookup : ∀ n code s, (srv n (.dbLookup code) s).1 = s

-- ================================================================ the search

section

variable {f : Nat → Option Str} {u : Str} {k k' : Nat}

/-- Attempts that find another URL are before one that finds the URL or
nothing. -/
theorem search_le (hbefore : ∀ j < k, ∃ v, f j = some v ∧ v ≠ u)
    (hstop : f k' = none ∨ f k' = some u) : k ≤ k' := by
  by_contra hlt
  obtain ⟨v, hv, hne⟩ := hbefore k' (Nat.lt_of_not_le hlt)
  rw [hv] at hstop
  rcases hstop with hnone | hsome
  · cases hnone
  · exact hne (Option.some.inj hsome)

/-- The search for a URL stops at one attempt. -/
theorem search_unique (hbefore : ∀ j < k, ∃ v, f j = some v ∧ v ≠ u)
    (hstop : f k = none ∨ f k = some u)
    (hbefore' : ∀ j < k', ∃ v, f j = some v ∧ v ≠ u)
    (hstop' : f k' = none ∨ f k' = some u) : k = k' :=
  Nat.le_antisymm (search_le hbefore hstop') (search_le hbefore' hstop)

end

namespace ShortenRequestHandler

variable (h : ShortenRequestHandler) {σ : Type}
  {srv : Nat → Server Call Call.Reply σ}

/-- A request handled alone by clients of any kind. -/
def serveBy (srv : Nat → Server Call Call.Reply σ) (request : Request)
    (s : σ) : σ × Response :=
  Prog.eval srv 0 (h.handleRequest request) s

-- ==================================================================== POST

/-- Attempt `j` of a POST of `u` finds another URL. -/
def FindsOther (srv : Nat → Server Call Call.Reply σ) (u : Str) (s : σ)
    (j : Nat) : Prop :=
  ∃ v, (srv j (.dbLookup (h.candidateShort u j)) s).2 = some v ∧ v ≠ u

/-- The ends of a POST. In each, the attempts before the last one find
another URL. -/
inductive PostEnd (srv : Nat → Server Call Call.Reply σ)
    (request : Request) (s : σ) : σ × Response → Prop
  /-- The candidate already maps to the URL. -/
  | reused (k : Nat) (hk : k < kMaxAttempts)
      (hbefore : ∀ j < k, h.FindsOther srv request.body s j)
      (hlookup : (srv k (.dbLookup (h.candidateShort request.body k)) s).2
        = some request.body) :
      PostEnd srv request s
        (s, postOk request (h.candidateShort request.body k))
  /-- The lookup found nothing, and the store worked. -/
  | stored (k : Nat) (hk : k < kMaxAttempts)
      (hbefore : ∀ j < k, h.FindsOther srv request.body s j)
      (hlookup : (srv k (.dbLookup (h.candidateShort request.body k)) s).2
        = none)
      (hstore : (srv (k + 1) (.dbStore (h.candidateShort request.body k)
        request.body) s).2 = true) :
      PostEnd srv request s
        ((srv (k + 1) (.dbStore (h.candidateShort request.body k)
          request.body) s).1,
          postOk request (h.candidateShort request.body k))
  /-- The lookup found nothing, and the store did not work. -/
  | storeFailed (k : Nat) (hk : k < kMaxAttempts)
      (hbefore : ∀ j < k, h.FindsOther srv request.body s j)
      (hlookup : (srv k (.dbLookup (h.candidateShort request.body k)) s).2
        = none)
      (hstore : (srv (k + 1) (.dbStore (h.candidateShort request.body k)
        request.body) s).2 = false) :
      PostEnd srv request s
        ((srv (k + 1) (.dbStore (h.candidateShort request.body k)
          request.body) s).1, postStoreFailed)
  /-- Every attempt found another URL. -/
  | exhausted
      (hbefore : ∀ j < kMaxAttempts, h.FindsOther srv request.body s j) :
      PostEnd srv request s (s, postExhausted)

/-- The attempt loop, entered with the earlier attempts past, comes to
an end. -/
theorem postAttempt_end (hread : Reading srv) (request : Request) (s : σ) :
    ∀ left ≤ kMaxAttempts,
      (∀ j < kMaxAttempts - left, h.FindsOther srv request.body s j) →
      h.PostEnd srv request s
        (Prog.eval srv (kMaxAttempts - left)
          (h.postAttempt request left) s) := by
  intro left
  induction left with
  | zero =>
      intro _ hbefore
      exact .exhausted hbefore
  | succ left ih =>
      intro hleft hbefore
      have hk : kMaxAttempts - (left + 1) < kMaxAttempts := by omega
      have hnext : kMaxAttempts - (left + 1) + 1 = kMaxAttempts - left := by
        omega
      generalize hattempt : kMaxAttempts - (left + 1) = k at *
      rw [postAttempt, hattempt, Prog.eval_call, hread.dbLookup]
      -- the three answers of the lookup: this URL, another one, nothing
      cases hfound : (srv k
          (.dbLookup (h.candidateShort request.body k)) s).2 with
      | some url =>
          by_cases hurl : url = request.body
          · subst hurl
            simp only [if_pos]
            exact .reused k hk hbefore hfound
          · simp only [if_neg hurl]
            rw [hnext]
            refine ih (by omega) fun j hj => ?_
            rcases Nat.lt_or_ge j k with hjk | hjk
            · exact hbefore j hjk
            · obtain rfl : j = k := by omega
              exact ⟨url, hfound, hurl⟩
      | none =>
          show h.PostEnd srv request s (Prog.eval srv (k + 1)
            (postStore request (h.candidateShort request.body k)) s)
          rw [postStore, Prog.eval_call]
          cases hstore : (srv (k + 1) (.dbStore
              (h.candidateShort request.body k) request.body) s).2 with
          | true => exact .stored k hk hbefore hfound hstore
          | false => exact .storeFailed k hk hbefore hfound hstore

/-- Every POST comes to an end. -/
theorem post_end (hread : Reading srv) {request : Request}
    (hpost : request.method = "POST".toList) (s : σ) :
    h.PostEnd srv request s (h.serveBy srv request s) := by
  rw [serveBy, handleRequest, if_pos hpost]
  exact h.postAttempt_end hread request s kMaxAttempts (Nat.le_refl _)
    fun j hj => absurd hj (by omega)

-- ===================================================================== GET

/-- The ends of a GET of a short code. -/
inductive GetEnd (srv : Nat → Server Call Call.Reply σ) (request : Request)
    (code : Str) (s : σ) : σ × Response → Prop
  /-- Redis has the code. -/
  | hit (url : Str) (hget : (srv 0 (.redisGet code) s).2 = some url) :
      GetEnd srv request code s (s, redirect request url)
  /-- The database has the code, and Redis is filled. -/
  | filled (url : Str) (hlookup : (srv 1 (.dbLookup code) s).2 = some url) :
      GetEnd srv request code s
        ((srv 2 (.redisSet code url) s).1, redirect request url)
  /-- The database has nothing. -/
  | missing (hlookup : (srv 1 (.dbLookup code) s).2 = none) :
      GetEnd srv request code s (s, stockResponse .c404)

/-- The resolution of a short code comes to an end. -/
theorem getRedirect_end (hread : Reading srv) (request : Request)
    (code : Str) (s : σ) :
    GetEnd srv request code s
      (Prog.eval srv 0 (getRedirect request code) s) := by
  rw [getRedirect, Prog.eval_call, hread.redisGet]
  cases hget : (srv 0 (.redisGet code) s).2 with
  | some url => exact .hit url hget
  | none =>
      show GetEnd srv request code s (Prog.eval srv 1
        (getLookup request code) s)
      rw [getLookup, Prog.eval_call, hread.dbLookup]
      cases hlookup : (srv 1 (.dbLookup code) s).2 with
      | some url => exact .filled url hlookup
      | none => exact .missing hlookup

/-- A URI `base_uri + '/' + code` with a code of six characters is
resolved. -/
theorem serveBy_get {request : Request} {code : Str}
    (hget : request.method = "GET".toList)
    (huri : request.uri = h.baseUri ++ '/' :: code)
    (hcode : code.length = shortUrlLength)
    (srv : Nat → Server Call Call.Reply σ) (s : σ) :
    h.serveBy srv request s
      = Prog.eval srv 0 (getRedirect request code) s := by
  have hpost : ¬ request.method = "POST".toList := by
    rw [hget]
    decide
  have hbase : ¬ request.uri = h.baseUri := by
    rw [huri]
    simp
  have hlen : ¬ request.uri.length
      ≠ h.baseUri.length + shortUrlLength + 1 := by
    rw [huri, List.length_append, List.length_cons, hcode]
    omega
  have hcut : request.uri.drop (h.baseUri.length + 1) = code := by
    rw [huri, ← List.drop_drop, List.drop_left]
    rfl
  rw [serveBy, handleRequest, if_neg hpost, if_pos hget, handleGetRequest,
    if_neg hbase, if_neg hlen, hcut]

-- ========================================================== any request

/-- What a request does, whatever its method and URI: what a POST does,
what the resolution of some code does, or nothing. -/
theorem serveBy_cases (hread : Reading srv) (request : Request) (s : σ) :
    (request.method = "POST".toList
        ∧ h.PostEnd srv request s (h.serveBy srv request s))
      ∨ (∃ code, GetEnd srv request code s (h.serveBy srv request s))
      ∨ (h.serveBy srv request s).1 = s := by
  by_cases hpost : request.method = "POST".toList
  · exact Or.inl ⟨hpost, h.post_end hread hpost s⟩
  · rw [serveBy, handleRequest, if_neg hpost]
    split
    · rw [handleGetRequest]
      split
      · exact Or.inr (Or.inr rfl)
      · split
        · exact Or.inr (Or.inr rfl)
        · exact Or.inr (Or.inl ⟨_, getRedirect_end hread request _ s⟩)
    · exact Or.inr (Or.inr rfl)

end ShortenRequestHandler

end Creeper
