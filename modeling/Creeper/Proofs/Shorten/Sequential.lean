/-
Sequential runs of the shortener in which database lookups are
accurate: stores may fail, Redis may miss or evict, requests come in any
order with any bodies and URIs.

# Two invariants

- `World.Coherent`: Redis is a sub-map of the database. Together with
  `step_writeOnce` (the database is a write-once map: a POST stores only
  under a code it found free) it decides every GET
  (`serve_get_coherent`): the answer is the database's, cached or not.
- `AllSeated`: a URL in the database sits at one of its own candidates,
  and every earlier candidate of it holds another URL. Candidates of
  different URLs overlap in any way the hash makes them; the invariant
  survives because what is held stays held (`Seated.mono`). A seated URL
  has one code (`Seated.unique`), and a later POST of it stops there
  (`serve_post_seated`).
-/
import Creeper.Proofs.Shorten.Outcome

namespace Creeper

open Lib

/-- A 302 whose one header is the location `url`. -/
def Response.RedirectsTo (r : Response) (url : Str) : Prop :=
  r.statusCode = 302 ∧ r.headers = [⟨"Location".toList, url⟩]

/-- Redis holds nothing the database does not. -/
def World.Coherent (w : World) : Prop := Submap w.redis w.db

namespace ShortenRequestHandler

variable {h : ShortenRequestHandler} {w w' : World} {e : ShortenEvent}
  {es : List ShortenEvent} {φ : Faults}

-- ============================================================ the database

/-- With accurate lookups the database is a write-once map. -/
theorem step_writeOnce (hst : h.AccurateStep w e w') :
    WriteOnce w.db w'.db := by
  obtain ⟨hacc, rfl⟩ := hst
  cases e with
  | evict code => exact .keep
  | request request φ =>
      show WriteOnce w.db (h.serve φ request w).1.db
      rcases h.serve_db_cases φ request w with
        hsame | ⟨k, -, -, -, hlookup, -, hout⟩
      · rw [hsame]
        exact .keep
      · have hfree := hlookup.resolve_left (by rw [hacc]; decide)
        rw [hout]
        exact .assign _ _ hfree

/-- Entries of the database never change. -/
theorem run_db (hrun : Run h.AccurateStep w es w') :
    Submap w.db w'.db :=
  hrun.climbs (r := fun w w' => Submap w.db w'.db)
    (fun w => Submap.refl w.db) (fun _ _ _ => Submap.trans)
    fun _ _ _ hst => (step_writeOnce hst).submap

/-- Coherence is kept by every step: a POST only adds to the database, a
GET copies a database entry, an eviction only takes away. -/
theorem step_coherent (hw : w.Coherent) (hst : h.AccurateStep w e w') :
    w'.Coherent := by
  have hgrow := (step_writeOnce hst).submap
  obtain ⟨-, rfl⟩ := hst
  cases e with
  | evict code => exact Submap.erase_left hw code
  | request request φ =>
      show Submap (h.serve φ request w).1.redis (h.serve φ request w).1.db
      rcases h.serve_redis_cases φ request w with
        hsame | ⟨code, url, hdb, hout⟩
      · rw [hsame]
        exact hw.trans hgrow
      · rw [hout]
        exact hw.upsert_left hdb

/-- Coherence is kept by every run. -/
theorem run_coherent (hw : w.Coherent) (hrun : Run h.AccurateStep w es w') :
    w'.Coherent :=
  hrun.invariant (I := World.Coherent)
    (fun _ _ _ hI hst => step_coherent hI hst) hw

-- =================================================================== POSTs

/-- A POST answered 200 leaves its URL in the database under the code it
returned. -/
theorem serve_post_ok {request : Request}
    (hpost : request.method = "POST".toList)
    (hok : (h.serve φ request w).2.statusCode = 200) :
    (h.serve φ request w).1.db (h.serve φ request w).2.body
      = some request.body := by
  have hout := h.post_outcome φ hpost w
  generalize h.serve φ request w = end_ at hout hok ⊢
  cases hout with
  | reused k hk hbefore hlookup hdb => exact hdb
  | stored => exact upsert_same ..
  | storeFailed => simp at hok
  | exhausted => simp at hok

/-- The code of a POST answered 200 is one of its candidates. -/
theorem serve_post_code {request : Request}
    (hpost : request.method = "POST".toList)
    (hok : (h.serve φ request w).2.statusCode = 200) :
    ∃ k, (h.serve φ request w).2.body
      = h.candidateShort request.body k := by
  have hout := h.post_outcome φ hpost w
  generalize h.serve φ request w = end_ at hout hok ⊢
  cases hout with
  | reused k => exact ⟨k, rfl⟩
  | stored k => exact ⟨k, rfl⟩
  | storeFailed => simp at hok
  | exhausted => simp at hok

-- ==================================================================== GETs

/-- In a coherent world a GET of a code answers what the database
says. -/
theorem serve_get_coherent (hw : w.Coherent) {request : Request}
    {code : Str} (hget : request.method = "GET".toList)
    (huri : request.uri = h.baseUri ++ '/' :: code)
    (hcode : code.length = shortUrlLength) (hφ : φ.AccurateLookups) :
    (h.serve φ request w).2 = match w.db code with
      | some url => redirect request url
      | none => stockResponse .c404 := by
  have hout := getRedirect_outcome φ request code w
  rw [← h.serve_get hget huri hcode φ w] at hout
  generalize h.serve φ request w = end_ at hout
  cases hout with
  | hit url hredis => rw [hw code url hredis]
  | filled url hdb => rw [hdb]
  | missing hmiss =>
      have hnone := hmiss.resolve_left (by rw [hφ]; decide)
      rw [hnone]

/-- In a run with accurate lookups, a GET of an acknowledged code
redirects to the body that was acknowledged. -/
theorem serve_get_acked {w₀ w₁ w₂ : World} {pre suf : List ShortenEvent}
    {post get : Request} {φ ψ : Faults} (hw₀ : w₀.Coherent)
    (hpre : Run h.AccurateStep w₀ pre w₁)
    (hpost : post.method = "POST".toList) (hφ : φ.AccurateLookups)
    (hok : (h.serve φ post w₁).2.statusCode = 200)
    (hsuf : Run h.AccurateStep (h.serve φ post w₁).1 suf w₂)
    (hget : get.method = "GET".toList)
    (huri : get.uri = h.baseUri ++ '/' :: (h.serve φ post w₁).2.body)
    (hψ : ψ.AccurateLookups) :
    (h.serve ψ get w₂).2 = redirect get post.body := by
  have hevent : h.AccurateStep w₁ (.request post φ)
      (h.serve φ post w₁).1 := ⟨hφ, rfl⟩
  have hw₂ : w₂.Coherent :=
    run_coherent (step_coherent (run_coherent hw₀ hpre) hevent) hsuf
  have hdb : w₂.db (h.serve φ post w₁).2.body = some post.body :=
    run_db hsuf _ _ (serve_post_ok hpost hok)
  have hcode : (h.serve φ post w₁).2.body.length = shortUrlLength := by
    obtain ⟨k, hk⟩ := serve_post_code hpost hok
    rw [hk, candidateShort_length]
  rw [serve_get_coherent hw₂ hget huri hcode hψ, hdb]

/-- The redirect of one URL is not the redirect of another. -/
theorem redirect_redirectsTo (request : Request) (url url' : Str) :
    (redirect request url).RedirectsTo url' ↔ url = url' := by
  simp [Response.RedirectsTo, redirect]

/-- The shortener as a directory. From any coherent start: an
acknowledged URL is what its code redirects to from then on, and every
GET of a six-character code answers 302 with the database's URL, or 404
when there is none, whatever Redis holds. -/
theorem shorten_directory (h : ShortenRequestHandler) {w₀ : World}
    (hw₀ : w₀.Coherent) :
    (∀ (pre : List ShortenEvent) (w₁ : World) (post : Request) (φ : Faults)
        (suf : List ShortenEvent) (w₂ : World) (get : Request) (ψ : Faults),
      Run h.AccurateStep w₀ pre w₁ →
      post.method = "POST".toList → φ.AccurateLookups →
      (h.serve φ post w₁).2.statusCode = 200 →
      Run h.AccurateStep (h.serve φ post w₁).1 suf w₂ →
      get.method = "GET".toList →
      get.uri = h.baseUri ++ '/' :: (h.serve φ post w₁).2.body →
      ψ.AccurateLookups →
      (h.serve ψ get w₂).2.RedirectsTo post.body)
    ∧ (∀ (es : List ShortenEvent) (w : World) (get : Request) (code : Str)
        (ψ : Faults),
      Run h.AccurateStep w₀ es w →
      get.method = "GET".toList → get.uri = h.baseUri ++ '/' :: code →
      code.length = shortUrlLength → ψ.AccurateLookups →
      (∀ url, (h.serve ψ get w).2.RedirectsTo url
        ↔ w.db code = some url)
      ∧ ((h.serve ψ get w).2 = stockResponse .c404
        ↔ w.db code = none)) := by
  constructor
  · intro pre w₁ post φ suf w₂ get ψ hpre hpost hφ hok hsuf hget huri hψ
    rw [serve_get_acked hw₀ hpre hpost hφ hok hsuf hget huri hψ]
    exact (redirect_redirectsTo get post.body post.body).mpr rfl
  · intro es w get code ψ hrun hget huri hcode hψ
    have hw : w.Coherent := run_coherent hw₀ hrun
    rw [serve_get_coherent hw hget huri hcode hψ]
    cases hdb : w.db code with
    | some url =>
        refine ⟨fun url' => ?_, ?_⟩
        · rw [redirect_redirectsTo, Option.some.injEq]
        · simp [redirect, stockResponse, plainText]
    | none =>
        refine ⟨fun url' => ?_, by simp⟩
        simp [Response.RedirectsTo, stockResponse, plainText]

-- ========================================================= a worst hash

/-- A shortener whose hash sends every URL to zero, so that all
candidates of all URLs are the code `000000`. -/
def colliding : ShortenRequestHandler :=
  { baseUri := "/shorten".toList, hasher := fun _ => 0, page := none }

/-- Two empty stores. -/
def emptyWorld : World := ⟨fun _ => none, fun _ => none⟩

/-- No call fails. -/
def noFaults : Faults := fun _ _ => false

/-- A POST of a URL. -/
def postOf (url : Str) : Request :=
  { method := "POST".toList, uri := "/shorten".toList
    version := httpVersion, body := url, valid := true }

/-- A GET of a code. -/
def getOf (code : Str) : Request :=
  { method := "GET".toList, uri := "/shorten/".toList ++ code
    version := httpVersion, valid := true }

@[simp] theorem colliding_candidateShort (u : Str) (k : Nat) :
    colliding.candidateShort u k = "000000".toList := by
  show base62OfHash 0 = _
  decide +kernel

theorem shorten_directory_colliding :
    (colliding.serve noFaults (getOf "000000".toList)
      (colliding.serve noFaults (postOf "a".toList) emptyWorld).1).2.RedirectsTo
        "a".toList := by
  have hcoh : emptyWorld.Coherent := Submap.empty _
  refine (shorten_directory colliding hcoh).1
    [] emptyWorld (postOf "a".toList) noFaults [] _ (getOf "000000".toList)
    noFaults (.nil _) rfl (fun _ _ => rfl) rfl (.nil _) rfl ?_
    (fun _ _ => rfl)
  show _ = "/shorten".toList ++ '/' :: colliding.candidateShort "a".toList 0
  rw [colliding_candidateShort]
  decide

-- ====================================================== one code per URL

variable (h) in
/-- The URL `u` sits at the code `c`: `c` is one of its candidates, and
every earlier candidate holds another URL. -/
def Seated (w : World) (c u : Str) : Prop :=
  ∃ k < kMaxAttempts, c = h.candidateShort u k
    ∧ ∀ j < k, ∃ v, w.db (h.candidateShort u j) = some v ∧ v ≠ u

variable (h) in
/-- Every URL of the database sits where it is. -/
def AllSeated (w : World) : Prop :=
  ∀ c u, w.db c = some u → h.Seated w c u

/-- What is held stays held. -/
theorem Seated.mono {c u : Str} (hs : h.Seated w c u)
    (hgrow : Submap w.db w'.db) : h.Seated w' c u := by
  obtain ⟨k, hk, hc, hbefore⟩ := hs
  refine ⟨k, hk, hc, fun j hj => ?_⟩
  obtain ⟨v, hv, hne⟩ := hbefore j hj
  exact ⟨v, hgrow _ _ hv, hne⟩

/-- A URL sits at one code. -/
theorem Seated.unique {c c' u : Str} (hs : h.Seated w c u)
    (hs' : h.Seated w c' u) (hdb : w.db c = some u)
    (hdb' : w.db c' = some u) : c = c' := by
  obtain ⟨k, hk, rfl, hbefore⟩ := hs
  obtain ⟨k', hk', rfl, hbefore'⟩ := hs'
  -- the later of two seats would have an earlier candidate holding `u`
  obtain rfl := search_unique (f := fun j => w.db (h.candidateShort u j))
    hbefore (Or.inr hdb) hbefore' (Or.inr hdb')
  rfl

/-- Seating is kept by every step: the one entry a step can add is put
behind candidates that collided. -/
theorem step_allSeated (hall : h.AllSeated w)
    (hst : h.AccurateStep w e w') : h.AllSeated w' := by
  have hgrow := (step_writeOnce hst).submap
  have hold : ∀ c u, w.db c = some u → h.Seated w' c u :=
    fun c u hc => (hall c u hc).mono hgrow
  obtain ⟨-, rfl⟩ := hst
  cases e with
  | evict code => exact hold
  | request request φ =>
      intro c u hc
      change (h.serve φ request w).1.db c = some u at hc
      rcases h.serve_db_cases φ request w with
        hsame | ⟨k, hk, -, hbefore, -, -, hout⟩
      · rw [hsame] at hc
        exact hold c u hc
      · rw [hout] at hc
        rcases upsert_eq_some hc with ⟨rfl, rfl⟩ | ⟨-, hc'⟩
        · refine ⟨k, hk, rfl, fun j hj => ?_⟩
          obtain ⟨-, v, hv, hne⟩ := hbefore j hj
          exact ⟨v, hgrow _ _ hv, hne⟩
        · exact hold c u hc'

/-- Seating is kept by every run. -/
theorem run_allSeated (hall : h.AllSeated w)
    (hrun : Run h.AccurateStep w es w') : h.AllSeated w' :=
  hrun.invariant (I := h.AllSeated)
    (fun _ _ _ hI hst => step_allSeated hI hst) hall

/-- A POST of a URL that has a seat answers the code of the seat and
changes nothing. -/
theorem serve_post_seated {request : Request} {c : Str}
    (hpost : request.method = "POST".toList) (hφ : φ.AccurateLookups)
    (hseat : h.Seated w c request.body) (hdb : w.db c = some request.body) :
    h.serve φ request w = (w, postOk request c) := by
  obtain ⟨k, hk, rfl, hbefore⟩ := hseat
  -- the attempt that stops the loop is the one of the seat
  have hstop : ∀ k', (∀ j < k', h.Collides φ request.body w j) →
      (w.db (h.candidateShort request.body k') = none
        ∨ w.db (h.candidateShort request.body k') = some request.body) →
      k = k' := by
    intro k' hbefore' hfound
    exact search_unique
      (f := fun j => w.db (h.candidateShort request.body j)) hbefore
      (Or.inr hdb) (fun j hj => (hbefore' j hj).2) hfound
  have hout := h.post_outcome φ hpost w
  generalize h.serve φ request w = end_ at hout ⊢
  cases hout with
  | reused k' hk' hbefore' hlookup' hdb' =>
      obtain rfl := hstop k' hbefore' (Or.inr hdb')
      rfl
  | stored k' hk' hbefore' hlookup' hstore' =>
      have hfree := hlookup'.resolve_left (by rw [hφ]; decide)
      obtain rfl := hstop k' hbefore' (Or.inl hfree)
      rw [hdb] at hfree
      cases hfree
  | storeFailed k' hk' hbefore' hlookup' hstore' =>
      have hfree := hlookup'.resolve_left (by rw [hφ]; decide)
      obtain rfl := hstop k' hbefore' (Or.inl hfree)
      rw [hdb] at hfree
      cases hfree
  | exhausted hbefore' =>
      have hle : kMaxAttempts ≤ k := search_le
        (f := fun j => w.db (h.candidateShort request.body j))
        (fun j hj => (hbefore' j hj).2) (Or.inr hdb)
      exact absurd hk (Nat.not_lt_of_le hle)

/-- One code per URL. In every run from an empty database, whatever the
hash and whatever stores fail: no URL has two codes, and a URL once
acknowledged under a code is answered that code by every later POST of
it, which changes nothing. -/
theorem one_code_per_url (h : ShortenRequestHandler) {w₀ w : World}
    {es : List ShortenEvent} (hw₀ : w₀.db = fun _ => none)
    (hrun : Run h.AccurateStep w₀ es w) :
    (∀ c c' u, w.db c = some u → w.db c' = some u → c = c')
    ∧ ∀ (post : Request) (φ : Faults) (suf : List ShortenEvent)
        (w' : World) (again : Request) (ψ : Faults),
      post.method = "POST".toList → φ.AccurateLookups →
      (h.serve φ post w).2.statusCode = 200 →
      Run h.AccurateStep (h.serve φ post w).1 suf w' →
      again.method = "POST".toList → again.body = post.body →
      ψ.AccurateLookups →
      (h.serve ψ again w').2.statusCode = 200
        ∧ (h.serve ψ again w').2.body = (h.serve φ post w).2.body
        ∧ (h.serve ψ again w').1 = w' := by
  have hall₀ : h.AllSeated w₀ := by
    intro c u hc
    rw [hw₀] at hc
    cases hc
  have hall := run_allSeated hall₀ hrun
  refine ⟨fun c c' u hc hc' =>
    (hall c u hc).unique (hall c' u hc') hc hc', ?_⟩
  intro post φ suf w' again ψ hpost hφ hok hsuf hagain hbody hψ
  have hevent : h.AccurateStep w (.request post φ) (h.serve φ post w).1 :=
    ⟨hφ, rfl⟩
  have hall' := run_allSeated (step_allSeated hall hevent) hsuf
  have hdb : w'.db (h.serve φ post w).2.body = some again.body := by
    rw [hbody]
    exact run_db hsuf _ _ (serve_post_ok hpost hok)
  rw [serve_post_seated hagain hψ (hall' _ _ hdb) hdb]
  exact ⟨rfl, rfl, rfl⟩

theorem one_code_per_url_colliding :
    (colliding.serve noFaults (postOf "a".toList)
      (colliding.serve noFaults (postOf "a".toList) emptyWorld).1).2.statusCode
        = 200 := by
  have hrun : Run colliding.AccurateStep emptyWorld [] emptyWorld := .nil _
  exact ((one_code_per_url colliding rfl hrun).2 (postOf "a".toList)
    noFaults [] _ (postOf "a".toList) noFaults rfl (fun _ _ => rfl) rfl
    (.nil _) rfl rfl (fun _ _ => rfl)).1

end ShortenRequestHandler

end Creeper
