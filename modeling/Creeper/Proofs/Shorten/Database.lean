/-
The shortener over the database client.

What the handler is given by the client is what the table has under the
C string of a code, and what it stores there is the C string of a URL
(`performDatabase`). `store_alone` and `lookup_alone` are this for calls
of the client by themselves; `lookup_after_store` is the part of it that
a store and a later lookup have among any others.

`database_returns_iff` is exact in the URL. One without a NUL comes back
as it was stored: a lookup finds it, a POST of it answers the code it
has, and that code redirects to it. One with a NUL in it never does: the
lookup finds what is before the NUL, so the handler takes the next POST
of the URL for a collision, and the code redirects elsewhere.
-/
import Creeper.Proofs.Pools.Lookups
import Creeper.Proofs.Shorten.Sequential

namespace Creeper

open Lib

-- ========================================================= one call by itself

section

variable {shortCode longUrl : Str} {poolSize : UInt64} {table : UrlTable}
  {es : List (DatabaseEvent Unit)}
  {now : Running Unit DatabasePoint (Pool Nat Libpq)}

/-- A store by itself that returns true has put the URL into the
table. -/
theorem store_alone
    (h : Run RealDatabaseClient.Step
      (RealDatabaseClient.start poolSize table
        fun _ => .store shortCode longUrl) es now)
    (hstored : now.point () = .returned (.store shortCode longUrl) true) :
    now.shared.behind.table
      = upsert table (cString shortCode) (cString longUrl) := by
  have hk : Knowing (fun _ : Unit => .store shortCode longUrl)
      (fun _ res after => res = .commandOk →
        after = upsert table (cString shortCode) (cString longUrl))
      (fun after => after = table
        ∨ after = upsert table (cString shortCode) (cString longUrl)) := by
    have htwice : ∀ after : UrlTable, after = table
        ∨ after = upsert table (cString shortCode) (cString longUrl) →
        upsert after (cString shortCode) (cString longUrl)
          = upsert table (cString shortCode) (cString longUrl) := by
      intro after hor
      rcases hor with rfl | rfl
      · rfl
      · exact Function.update_idem ..
    refine ⟨fun _ after hafter => ⟨fun _ => htwice after hafter,
      Or.inr (htwice after hafter)⟩, fun _ _ _ => nofun, ?_⟩
    intro i j hne
    exact absurd rfl hne
  have hknown := (known_of_run (F := fun _ => False) hk (Or.inl rfl) h
    (fun _ _ => nofun) ()).standing
  rw [hstored] at hknown
  exact Concludes.stored hknown rfl

/-- A lookup by itself that meets no failure returns what the table has,
and leaves it. -/
theorem lookup_alone
    (h : Run RealDatabaseClient.Step
      (RealDatabaseClient.start poolSize table fun _ => .lookup shortCode)
      es now) (hfine : ∀ e ∈ es, ¬ Failure e.2) {result : Option Str}
    (hreturned : now.point () = .returned (.lookup shortCode) result) :
    result = (table (cString shortCode)).map cString
      ∧ now.shared.behind.table = table := by
  have hk : Knowing (fun _ : Unit => .lookup shortCode)
      (fun _ res _ => res = .tuplesOk (table (cString shortCode)).toList
        ∨ res = .error)
      (fun after => after = table) := by
    refine ⟨?_, fun _ _ _ => Or.inr rfl, fun _ _ _ _ _ _ h => h⟩
    intro _ after heq
    subst heq
    exact ⟨Or.inl rfl, rfl⟩
  have hknown := known_of_run (F := fun _ => True) hk rfl h
    (fun e he _ => hfine e he) ()
  refine ⟨?_, hknown.table⟩
  have hstanding := hknown.standing
  rw [hreturned] at hstanding
  rcases Concludes.inv hstanding with ⟨hne, -⟩ | ⟨res, hres, hok, rfl⟩
  · exact absurd trivial hne
  · rcases hres with rfl | rfl
    · cases table (cString shortCode) <;> rfl
    · exact absurd rfl (hok trivial)

end

-- ================================================================ the handler

/-- One call of the handler, the database behind its client. -/
def performDatabase (fails : Bool) : Server Call Call.Reply World
  | .dbLookup code, w =>
      (w, if fails then none else (w.db (cString code)).map cString)
  | .dbStore code url, w =>
      if fails then (w, false)
      else ({ w with db := upsert w.db (cString code) (cString url) }, true)
  | c, w => perform fails c w

/-- The clients under a fault pattern. -/
def overDatabase (φ : Faults) (n : Nat) : Server Call Call.Reply World :=
  fun c w => performDatabase (φ n c) c w

/-- What the client finds for a code. -/
def World.seen (w : World) (code : Str) : Option Str :=
  (w.db (cString code)).map cString

/-- Redis holds nothing the client would not find. -/
def World.SeenCoherent (w : World) : Prop := Submap w.redis w.seen

namespace ShortenRequestHandler

variable {h : ShortenRequestHandler} {w w' : World} {e : ShortenEvent}
  {es : List ShortenEvent} {φ : Faults}

/-- Sequential runs over the database client in which database lookups
are accurate. -/
def DatabaseStep (h : ShortenRequestHandler) (w : World) (e : ShortenEvent)
    (w' : World) : Prop :=
  e.Accurate ∧ w' = match e with
    | .request request φ => (h.serveBy (overDatabase φ) request w).1
    | .evict code => { w with redis := erase w.redis code }

theorem overDatabase_reading (φ : Faults) : Reading (overDatabase φ) :=
  ⟨fun _ _ _ => rfl, fun _ _ _ => rfl⟩

/-- An accurate lookup is what the client finds. -/
theorem overDatabase_lookup (hφ : φ.AccurateLookups) (n : Nat) (code : Str)
    (w : World) : (overDatabase φ n (.dbLookup code) w).2 = w.seen code := by
  show (if φ n (.dbLookup code) then none else w.seen code) = w.seen code
  rw [hφ]
  rfl

/-- What is found is a C string. -/
theorem cString_of_seen {code url : Str} (hseen : w.seen code = some url) :
    cString url = url := by
  obtain ⟨v, -, rfl⟩ := Option.map_eq_some_iff.mp hseen
  exact cString_cString v

/-- A store fails, or puts the C string of its URL into the row of its
code. -/
theorem overDatabase_store (φ : Faults) (n : Nat) (code url : Str)
    (w : World) :
    overDatabase φ n (.dbStore code url) w = (w, false)
      ∨ overDatabase φ n (.dbStore code url) w
        = ({ w with db := upsert w.db (cString code) (cString url) }, true) := by
  have hstore : overDatabase φ n (.dbStore code url) w
      = if φ n (.dbStore code url) then (w, false)
        else ({ w with db := upsert w.db (cString code) (cString url) },
          true) := rfl
  rw [hstore]
  split
  · exact Or.inl rfl
  · exact Or.inr rfl

-- ================================================================ any request

/-- A request changes the table in a row that is free, or takes over into
Redis what the client finds, or changes nothing. -/
theorem database_cases (hφ : φ.AccurateLookups) (request : Request)
    (w : World) :
    (h.serveBy (overDatabase φ) request w).1 = w
      ∨ (∃ code url, w.db (cString code) = none
        ∧ (h.serveBy (overDatabase φ) request w).1
          = { w with db := upsert w.db (cString code) (cString url) })
      ∨ ∃ code url, w.seen code = some url
        ∧ (h.serveBy (overDatabase φ) request w).1
          = { w with redis := upsert w.redis code url } := by
  rcases h.serveBy_cases (overDatabase_reading φ) request w with
    ⟨-, hend⟩ | ⟨code, hend⟩ | hsame
  · generalize h.serveBy (overDatabase φ) request w = end_ at hend
    cases hend with
    | reused => exact Or.inl rfl
    | exhausted => exact Or.inl rfl
    | stored k hk hbefore hlookup hstore =>
        rw [overDatabase_lookup hφ] at hlookup
        rcases overDatabase_store φ (k + 1)
          (h.candidateShort request.body k) request.body w with heq | heq
        · rw [heq] at hstore
          cases hstore
        · rw [heq]
          exact Or.inr (Or.inl ⟨_, _, Option.map_eq_none_iff.mp hlookup, rfl⟩)
    | storeFailed k hk hbefore hlookup hstore =>
        rcases overDatabase_store φ (k + 1)
          (h.candidateShort request.body k) request.body w with heq | heq
        · rw [heq]
          exact Or.inl rfl
        · rw [heq] at hstore
          cases hstore
  · generalize h.serveBy (overDatabase φ) request w = end_ at hend
    cases hend with
    | hit => exact Or.inl rfl
    | missing => exact Or.inl rfl
    | filled url hlookup =>
        rw [overDatabase_lookup hφ] at hlookup
        exact Or.inr (Or.inr ⟨code, url, hlookup, rfl⟩)
  · exact Or.inl hsame

/-- The rows of the table never change. -/
theorem databaseStep_grows (hst : h.DatabaseStep w e w') :
    Submap w.db w'.db := by
  obtain ⟨hacc, rfl⟩ := hst
  cases e with
  | evict code => exact Submap.refl _
  | request request φ =>
      show Submap w.db (h.serveBy (overDatabase φ) request w).1.db
      rcases database_cases hacc request w with
        hsame | ⟨code, url, hfree, heq⟩ | ⟨code, url, -, heq⟩
      · rw [hsame]
        exact Submap.refl _
      · rw [heq]
        exact Submap.upsert_right (Or.inl hfree)
      · rw [heq]
        exact Submap.refl _

theorem run_database_grows (hrun : Run h.DatabaseStep w es w') :
    Submap w.db w'.db :=
  hrun.climbs (r := fun w w' => Submap w.db w'.db)
    (fun w => Submap.refl w.db) (fun _ _ _ => Submap.trans)
    fun _ _ _ hst => databaseStep_grows hst

/-- What is found once is found from then on. -/
theorem seen_mono (hgrow : Submap w.db w'.db) : Submap w.seen w'.seen := by
  intro code url hseen
  obtain ⟨v, hv, rfl⟩ := Option.map_eq_some_iff.mp hseen
  show (w'.db (cString code)).map cString = _
  rw [hgrow _ _ hv]
  rfl

/-- Redis stays coherent with what the client finds. -/
theorem databaseStep_coherent (hw : w.SeenCoherent)
    (hst : h.DatabaseStep w e w') : w'.SeenCoherent := by
  have hgrow := seen_mono (databaseStep_grows hst)
  obtain ⟨hacc, rfl⟩ := hst
  cases e with
  | evict code => exact Submap.erase_left hw code
  | request request φ =>
      show (h.serveBy (overDatabase φ) request w).1.SeenCoherent
      rcases database_cases (h := h) hacc request w with
        hsame | ⟨code, url, hfree, heq⟩ | ⟨code, url, hseen, heq⟩
      · rw [hsame]
        exact hw
      · have hredis : (h.serveBy (overDatabase φ) request w).1.redis
            = w.redis := by rw [heq]
        unfold World.SeenCoherent
        rw [hredis]
        exact hw.trans hgrow
      · rw [heq]
        exact hw.upsert_left hseen

theorem run_database_coherent (hw : w.SeenCoherent)
    (hrun : Run h.DatabaseStep w es w') : w'.SeenCoherent :=
  hrun.invariant (I := World.SeenCoherent)
    (fun _ _ _ hI hst => databaseStep_coherent hI hst) hw

-- ===================================================================== the URL

/-- The client finds what is before the NUL of a URL under a candidate of
the URL, and another URL under every earlier one. -/
structure SeatedAt (h : ShortenRequestHandler) (w : World) (u : Str)
    (k : Nat) : Prop where
  attempt : k < kMaxAttempts
  before : ∀ j < k, ∃ v, w.seen (h.candidateShort u j) = some v ∧ v ≠ u
  found : w.seen (h.candidateShort u k) = some (cString u)

/-- A POST answered 200 has its URL there, as far as the client finds
it. -/
theorem seatedAt_of_post {request : Request}
    (hpost : request.method = "POST".toList) (hφ : φ.AccurateLookups)
    (hok : (h.serveBy (overDatabase φ) request w).2.statusCode = 200) :
    ∃ k, (h.serveBy (overDatabase φ) request w).2.body
        = h.candidateShort request.body k
      ∧ h.SeatedAt (h.serveBy (overDatabase φ) request w).1 request.body
        k := by
  have hgrow : Submap w.seen (h.serveBy (overDatabase φ) request w).1.seen :=
    seen_mono (databaseStep_grows (h := h) (e := .request request φ) ⟨hφ, rfl⟩)
  have hend := h.post_end (overDatabase_reading φ) hpost w
  generalize h.serveBy (overDatabase φ) request w = end_ at hend hok hgrow ⊢
  have hothers : ∀ {k}, (∀ j < k, h.FindsOther (overDatabase φ) request.body
      w j) → ∀ j < k, ∃ v, end_.1.seen (h.candidateShort request.body j)
        = some v ∧ v ≠ request.body := by
    intro k hbefore j hj
    obtain ⟨v, hv, hne⟩ := hbefore j hj
    rw [overDatabase_lookup hφ] at hv
    exact ⟨v, hgrow _ _ hv, hne⟩
  cases hend with
  | reused k hk hbefore hlookup =>
      rw [overDatabase_lookup hφ] at hlookup
      refine ⟨k, rfl, hk, hothers hbefore, ?_⟩
      rw [cString_of_seen hlookup]
      exact hlookup
  | stored k hk hbefore hlookup hstore =>
      refine ⟨k, rfl, hk, hothers hbefore, ?_⟩
      rcases overDatabase_store φ (k + 1)
        (h.candidateShort request.body k) request.body w with heq | heq
      · rw [heq] at hstore
        cases hstore
      · rw [heq]
        show (upsert w.db _ _ _).map cString = _
        rw [upsert_same, Option.map_some, cString_cString]
  | storeFailed => simp at hok
  | exhausted => simp at hok

/-- The URL keeps its seat. -/
theorem SeatedAt.mono {u : Str} {k : Nat} (hs : h.SeatedAt w u k)
    (hgrow : Submap w.seen w'.seen) : h.SeatedAt w' u k := by
  refine ⟨hs.attempt, fun j hj => ?_, hgrow _ _ hs.found⟩
  obtain ⟨v, hv, hne⟩ := hs.before j hj
  exact ⟨v, hgrow _ _ hv, hne⟩

/-- An attempt that stops at a seated URL is the one of its seat. -/
theorem SeatedAt.stops {u : Str} {k k' : Nat} (hs : h.SeatedAt w u k)
    (hu : cString u = u) (hφ : φ.AccurateLookups)
    (hbefore : ∀ j < k', h.FindsOther (overDatabase φ) u w j)
    (hstop : w.seen (h.candidateShort u k') = none
      ∨ w.seen (h.candidateShort u k') = some u) : k' = k := by
  have hfound := hs.found
  rw [hu] at hfound
  refine search_unique (f := fun j => w.seen (h.candidateShort u j))
    (fun j hj => ?_) hstop hs.before (Or.inr hfound)
  obtain ⟨v, hv, hne⟩ := hbefore j hj
  rw [overDatabase_lookup hφ] at hv
  exact ⟨v, hv, hne⟩

/-- The next POST of a seated URL answers its code just where there is
no NUL in it. -/
theorem post_again_iff {request : Request} {k : Nat}
    (hpost : request.method = "POST".toList) (hφ : φ.AccurateLookups)
    (hs : h.SeatedAt w request.body k) :
    ((h.serveBy (overDatabase φ) request w).2.statusCode = 200
        ∧ (h.serveBy (overDatabase φ) request w).2.body
          = h.candidateShort request.body k)
      ↔ '\x00' ∉ request.body := by
  rw [← cString_eq_iff]
  have hend := h.post_end (overDatabase_reading φ) hpost w
  generalize h.serveBy (overDatabase φ) request w = end_ at hend ⊢
  constructor
  · intro hex
    obtain ⟨hok, hbody⟩ := hex
    cases hend with
    | reused k' hk' hbefore hlookup =>
        rw [overDatabase_lookup hφ] at hlookup
        exact cString_of_seen hlookup
    | stored k' hk' hbefore hlookup hstore =>
        -- the code it answers would be free, and it has the URL
        have hcode : h.candidateShort request.body k'
            = h.candidateShort request.body k := hbody
        rw [overDatabase_lookup hφ, hcode, hs.found] at hlookup
        cases hlookup
    | storeFailed => simp at hok
    | exhausted => simp at hok
  · intro hu
    have hfound : w.seen (h.candidateShort request.body k)
        = some request.body := by
      rw [hs.found, hu]
    cases hend with
    | reused k' hk' hbefore hlookup =>
        rw [overDatabase_lookup hφ] at hlookup
        obtain rfl := hs.stops hu hφ hbefore (Or.inr hlookup)
        exact ⟨rfl, rfl⟩
    | stored k' hk' hbefore hlookup hstore =>
        rw [overDatabase_lookup hφ] at hlookup
        obtain rfl := hs.stops hu hφ hbefore (Or.inl hlookup)
        rw [hfound] at hlookup
        cases hlookup
    | storeFailed k' hk' hbefore hlookup hstore =>
        rw [overDatabase_lookup hφ] at hlookup
        obtain rfl := hs.stops hu hφ hbefore (Or.inl hlookup)
        rw [hfound] at hlookup
        cases hlookup
    | exhausted hbefore =>
        obtain ⟨v, hv, hne⟩ := hbefore k hs.attempt
        rw [overDatabase_lookup hφ, hfound] at hv
        exact absurd (Option.some.inj hv).symm hne

/-- A GET of a code redirects to what the client finds. -/
theorem get_redirects (hw : w.SeenCoherent) {request : Request}
    {code url : Str} (hget : request.method = "GET".toList)
    (huri : request.uri = h.baseUri ++ '/' :: code)
    (hcode : code.length = shortUrlLength) (hφ : φ.AccurateLookups)
    (hseen : w.seen code = some url) :
    (h.serveBy (overDatabase φ) request w).2 = redirect request url := by
  have hend := getRedirect_end (overDatabase_reading φ) request code w
  rw [← h.serveBy_get hget huri hcode (overDatabase φ) w] at hend
  generalize h.serveBy (overDatabase φ) request w = end_ at hend
  cases hend with
  | hit url' hredis =>
      have hhit : w.redis code = some url' := by
        have hget' : (overDatabase φ 0 (.redisGet code) w).2
            = if φ 0 (.redisGet code) then none else w.redis code := rfl
        rw [hget'] at hredis
        split at hredis
        · cases hredis
        · exact hredis
      have hsame := hw _ _ hhit
      rw [hseen] at hsame
      rw [Option.some.inj hsame]
  | filled url' hlookup =>
      rw [overDatabase_lookup hφ, hseen] at hlookup
      rw [Option.some.inj hlookup]
  | missing hlookup =>
      rw [overDatabase_lookup hφ, hseen] at hlookup
      cases hlookup

-- ============================================================== what comes back

/-- A URL comes back from the database as it was stored just where there
is no NUL in it: from a lookup that begins after its store has returned
true, among any other calls that do not store its row; as the code of
every later POST of it; and as what that code redirects to. -/
theorem database_returns_iff (u : Str) :
    (∀ (ι : Type) [DecidableEq ι] (poolSize : UInt64) (table : UrlTable)
        (calls : ι → DatabaseCall) (i j : ι) (shortCode : Str)
        (es fs : List (DatabaseEvent ι))
        (mid now : Running ι DatabasePoint (Pool Nat Libpq))
        (result : Option Str),
      calls i = .store shortCode u → calls j = .lookup shortCode →
      OnlyStore calls i shortCode →
      Run RealDatabaseClient.Step
        (RealDatabaseClient.start poolSize table calls) es mid →
      mid.point i = .returned (.store shortCode u) true →
      mid.point j = .call (.lookup shortCode) →
      Run RealDatabaseClient.Step mid fs now →
      now.point j = .returned (.lookup shortCode) result →
      (∀ e ∈ fs, e.1 = j → ¬ Failure e.2) →
      (result = some u ↔ '\x00' ∉ u))
    ∧ (∀ (h : ShortenRequestHandler) (w₀ w w' : World)
        (pre suf : List ShortenEvent) (post again get : Request)
        (φ ψ χ : Faults),
      w₀.SeenCoherent → Run h.DatabaseStep w₀ pre w →
      post.method = "POST".toList → post.body = u → φ.AccurateLookups →
      (h.serveBy (overDatabase φ) post w).2.statusCode = 200 →
      Run h.DatabaseStep (h.serveBy (overDatabase φ) post w).1 suf w' →
      again.method = "POST".toList → again.body = u → ψ.AccurateLookups →
      get.method = "GET".toList →
      get.uri = h.baseUri
        ++ '/' :: (h.serveBy (overDatabase φ) post w).2.body →
      χ.AccurateLookups →
      (((h.serveBy (overDatabase ψ) again w').2.statusCode = 200
          ∧ (h.serveBy (overDatabase ψ) again w').2.body
            = (h.serveBy (overDatabase φ) post w).2.body)
        ↔ '\x00' ∉ u)
      ∧ ((h.serveBy (overDatabase χ) get w').2.RedirectsTo u
        ↔ '\x00' ∉ u)) := by
  constructor
  · intro ι _ poolSize table calls i j shortCode es fs mid now result hi hj
      honly hrun hstored hcall hrest hreturned hfine
    rw [lookup_after_store hi hj honly hrun hstored hcall hrest hreturned
      hfine, Option.some.injEq, cString_eq_iff]
  · intro h w₀ w w' pre suf post again get φ ψ χ hw₀ hpre hpost hbody hφ hok
      hsuf hagain hbody' hψ hget huri hχ
    obtain ⟨k, hcode, hseat⟩ := seatedAt_of_post hpost hφ hok
    have hgrow := seen_mono (run_database_grows hsuf)
    have hcoherent : (h.serveBy (overDatabase φ) post w).1.SeenCoherent :=
      databaseStep_coherent (h := h) (e := .request post φ)
        (run_database_coherent hw₀ hpre) ⟨hφ, rfl⟩
    have hseat' := hseat.mono hgrow
    constructor
    · rw [hcode]
      rw [hbody, ← hbody'] at hseat' ⊢
      exact post_again_iff hagain hψ hseat'
    · rw [hcode] at huri
      rw [get_redirects (run_database_coherent hcoherent hsuf) hget huri
        (candidateShort_length ..) hχ hseat'.found, redirect_redirectsTo,
        hbody, cString_eq_iff]

/-- A store of a URL, and a lookup of its code. -/
def storeThenLookup (u : Str) (second : Bool) : DatabaseCall :=
  if second then .lookup "000000".toList else .store "000000".toList u

/-- The two one after the other, without a failure. -/
theorem storeThenLookup_run (u : Str) :
    ∃ es fs mid now, Run RealDatabaseClient.Step
        (RealDatabaseClient.start 1 (fun _ => none) (storeThenLookup u))
        es mid
      ∧ mid.point false = .returned (.store "000000".toList u) true
      ∧ mid.point true = .call (.lookup "000000".toList)
      ∧ Run RealDatabaseClient.Step mid fs now
      ∧ now.point true
        = .returned (.lookup "000000".toList) (some (cString u))
      ∧ ∀ e ∈ fs, e.1 = true → ¬ Failure e.2 := by
  have hstore : Run RealDatabaseClient.Step
      (RealDatabaseClient.start 1 (fun _ => none) (storeThenLookup u)) _ _ :=
    .cons (.call (i := false) rfl .acquire)
      (.cons (.call (i := false) rfl (.command (.sent rfl)))
      (.cons (.call (i := false) rfl (.command (.executed rfl)))
      (.cons (.call (i := false) rfl (.command (.notBusy nofun)))
      (.cons (.call (i := false) rfl (.command (.gotResult rfl)))
      (.cons (.call (i := false) rfl (.command .consumed))
      (.cons (.call (i := false) rfl (.command (.notBusy nofun)))
      (.cons (.call (i := false) rfl (.command (.gotNull (Or.inl rfl))))
      (.cons (.call (i := false) rfl .release) (.nil _)))))))))
  refine ⟨_, _, _, _, hstore, rfl, rfl,
    .cons (.call (i := true) rfl .acquire)
      (.cons (.call (i := true) rfl (.command (.sent rfl)))
      (.cons (.call (i := true) rfl (.command (.executed rfl)))
      (.cons (.call (i := true) rfl (.command (.notBusy nofun)))
      (.cons (.call (i := true) rfl (.command (.gotResult rfl)))
      (.cons (.call (i := true) rfl (.command .consumed))
      (.cons (.call (i := true) rfl (.command (.notBusy nofun)))
      (.cons (.call (i := true) rfl (.command (.gotNull (Or.inl rfl))))
      (.cons (.call (i := true) rfl .release) (.nil _))))))))), ?_, ?_⟩
  · rw [← cString_cString u]
    rfl
  · have hrows : ∀ rows, PGresult.tuplesOk rows ≠ .error := fun _ => nofun
    simp [Failure]
    exact hrows _

theorem emptyWorld_seenCoherent : emptyWorld.SeenCoherent :=
  Submap.empty _

/-- The code of the first POST to the colliding shortener. -/
theorem colliding_first_post (u : Str) :
    (colliding.serveBy (overDatabase noFaults) (postOf u) emptyWorld).2.body
      = "000000".toList :=
  colliding_candidateShort u 0

theorem database_returns_plain :
    (∃ es fs mid now, Run RealDatabaseClient.Step
        (RealDatabaseClient.start 1 (fun _ => none)
          (storeThenLookup "http://a".toList)) es mid
      ∧ Run RealDatabaseClient.Step mid fs now
      ∧ now.point true
        = .returned (.lookup "000000".toList) (some "http://a".toList))
    ∧ (colliding.serveBy (overDatabase noFaults) (postOf "http://a".toList)
        (colliding.serveBy (overDatabase noFaults)
          (postOf "http://a".toList) emptyWorld).1).2.statusCode = 200
    ∧ (colliding.serveBy (overDatabase noFaults) (getOf "000000".toList)
        (colliding.serveBy (overDatabase noFaults)
          (postOf "http://a".toList) emptyWorld).1).2.RedirectsTo
            "http://a".toList := by
  have hnul : '\x00' ∉ "http://a".toList := by decide
  have honly : OnlyStore (storeThenLookup "http://a".toList) false
      "000000".toList := by
    intro k hk shortCode longUrl hcall
    cases k with
    | false => exact absurd rfl hk
    | true => cases hcall
  obtain ⟨hclient, hhandler⟩ := database_returns_iff "http://a".toList
  obtain ⟨hagain, hget⟩ := hhandler colliding emptyWorld emptyWorld _ [] []
    (postOf "http://a".toList) (postOf "http://a".toList)
    (getOf "000000".toList) noFaults noFaults noFaults
    emptyWorld_seenCoherent (.nil _) rfl rfl (fun _ _ => rfl) rfl (.nil _)
    rfl rfl (fun _ _ => rfl) rfl (by rw [colliding_first_post]; decide)
    (fun _ _ => rfl)
  refine ⟨?_, (hagain.mpr hnul).1, hget.mpr hnul⟩
  obtain ⟨es, fs, mid, now, hrun, hstored, hcall, hrest, hreturned, hfine⟩ :=
    storeThenLookup_run "http://a".toList
  refine ⟨es, fs, mid, now, hrun, hrest, ?_⟩
  have hresult := (hclient Bool 1 _ _ false true "000000".toList es fs mid
    now _ rfl rfl honly hrun hstored hcall hrest hreturned hfine).mpr hnul
  rw [hreturned, hresult]

/-- A URL that goes on after a NUL: the lookup of its code finds the
front of it, the next POST of it does not answer the code again, and the
code redirects to the front. -/
theorem database_truncates :
    (∃ es fs mid now, Run RealDatabaseClient.Step
        (RealDatabaseClient.start 1 (fun _ => none)
          (storeThenLookup "a\x00b".toList)) es mid
      ∧ mid.point false = .returned (.store "000000".toList
          "a\x00b".toList) true
      ∧ Run RealDatabaseClient.Step mid fs now
      ∧ now.point true
        = .returned (.lookup "000000".toList) (some "a".toList))
    ∧ (colliding.serveBy (overDatabase noFaults) (postOf "a\x00b".toList)
        emptyWorld).2.statusCode = 200
    ∧ ¬ ((colliding.serveBy (overDatabase noFaults) (postOf "a\x00b".toList)
          (colliding.serveBy (overDatabase noFaults)
            (postOf "a\x00b".toList) emptyWorld).1).2.statusCode = 200
        ∧ (colliding.serveBy (overDatabase noFaults)
          (postOf "a\x00b".toList) (colliding.serveBy
            (overDatabase noFaults) (postOf "a\x00b".toList)
            emptyWorld).1).2.body = "000000".toList)
    ∧ (colliding.serveBy (overDatabase noFaults) (getOf "000000".toList)
        (colliding.serveBy (overDatabase noFaults)
          (postOf "a\x00b".toList) emptyWorld).1).2.RedirectsTo
            "a".toList := by
  have hok : (colliding.serveBy (overDatabase noFaults)
      (postOf "a\x00b".toList) emptyWorld).2.statusCode = 200 := rfl
  obtain ⟨k, -, hseat⟩ := seatedAt_of_post rfl (fun _ _ => rfl) hok
  refine ⟨?_, hok, ?_, ?_⟩
  · obtain ⟨es, fs, mid, now, hrun, hstored, -, hrest, hreturned, -⟩ :=
      storeThenLookup_run "a\x00b".toList
    exact ⟨es, fs, mid, now, hrun, hstored, hrest, hreturned⟩
  · intro hagain
    rw [← colliding_candidateShort "a\x00b".toList k] at hagain
    have hnul := (post_again_iff rfl (fun _ _ => rfl) hseat).mp hagain
    revert hnul
    decide
  · have hseen := hseat.found
    rw [colliding_candidateShort] at hseen
    have hcoherent : (colliding.serveBy (overDatabase noFaults)
        (postOf "a\x00b".toList) emptyWorld).1.SeenCoherent :=
      databaseStep_coherent (h := colliding)
        (e := .request (postOf "a\x00b".toList) noFaults)
        emptyWorld_seenCoherent ⟨fun _ _ => rfl, rfl⟩
    rw [get_redirects hcoherent rfl (by decide) (by decide)
      (fun _ _ => rfl) hseen, redirect_redirectsTo]
    decide

end ShortenRequestHandler

end Creeper
