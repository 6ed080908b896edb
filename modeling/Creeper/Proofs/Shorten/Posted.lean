/-
A code that has been answered resolves.

The answer to a POST is a code, and whoever is given the code may ask
for it. Other requests are under way all the time, so what a handler
finds when it looks is not what it left. But rows of the table stay, and
that is enough: once the POST has its answer, its code has a row
(`postOk_row`), and a GET that begins after that is redirected, or the
database has failed it (`getRedirect_found`).

Where the redirect goes is in `Creeper.Proofs.Shorten.Pooled`. It goes
to the URL of the POST as long as nothing else is posted under the code
(`Unrivalled`).
-/
import Creeper.Proofs.Shorten.Outcome
import Creeper.Proofs.Shorten.Pooled

namespace Creeper

open Lib

namespace ShortenRequestHandler

variable {ι ρ : Type} {h : ShortenRequestHandler} {fails : Prop}
  {redis : Service RedisCommand RedisCommand.Reply ρ} {code : Str}
  {request : Request}

-- ====================================================================== rows

/-- The table has the code. -/
def HasRow (code : Str) (stores : ρ × UrlTable) : Prop :=
  (stores.2 code).isSome

/-- Rows stay. -/
theorem HasRow.serves {c : Call} {s s' : ρ × UrlTable} {r : c.Reply}
    (hrow : HasRow code s) (hserves : StoresServe redis fails c s r s') :
    HasRow code s' := by
  have hupsert : ∀ {t : UrlTable} {key value : Str}, (t code).isSome →
      (upsert t key value code).isSome := by
    intro t key value ht
    rw [upsert, Function.update_apply]
    split
    · rfl
    · exact ht
  cases hserves with
  | got => exact hrow
  | wasSet => exact hrow
  | lookedUp htable => cases htable <;> exact hrow
  | stored htable =>
      cases htable with
      | stored => exact hupsert hrow
      | unreported => exact hupsert hrow
      | failed => exact hrow

-- ================================================================== the POST

/-- What is answered as long as there is no row of the code. -/
def NoRow (code : Str) : (c : Call) → c.Reply → Prop
  | .dbLookup code', result => cString code' = code → result = none
  | .dbStore code' _, success => cString code' = code → success = false
  | _, _ => True

/-- Where there is no row after a call, none was answered. -/
theorem noRow_of_serves {c : Call} {s s' : ρ × UrlTable} {r : c.Reply}
    (hserves : StoresServe redis fails c s r s')
    (hnone : ¬ HasRow code s') : NoRow code c r := by
  cases hserves with
  | got => trivial
  | wasSet => trivial
  | lookedUp htable =>
      intro hcode
      cases htable with
      | failed => rfl
      | found =>
          subst hcode
          exact Option.map_eq_none_iff.mpr
            (Option.not_isSome_iff_eq_none.mp hnone)
  | stored htable =>
      intro hcode
      cases htable with
      | unreported => rfl
      | failed => rfl
      | stored =>
          subst hcode
          refine absurd ?_ hnone
          show (upsert _ _ _ _).isSome
          rw [upsert, Function.update_self]
          rfl

/-- Then the POST does not answer the code. -/
theorem postAttempt_noRow (left : Nat) :
    (h.postAttempt request left).Meets (fun _ => True) (NoRow code)
      fun response => response ≠ postOk request code := by
  have hfailed : ∀ {response : Response}, response.statusCode = 500 →
      response ≠ postOk request code := by
    intro response hstatus heq
    rw [heq] at hstatus
    cases hstatus
  have hcandidate : ∀ k, postOk request (h.candidateShort request.body k)
      = postOk request code →
      cString (h.candidateShort request.body k) = code := by
    intro k heq
    rw [cString_eq_iff.mpr (candidateShort_plain _ _)]
    exact congrArg Response.body heq
  induction left with
  | zero => exact hfailed rfl
  | succ left ih =>
      rw [postAttempt]
      refine ⟨trivial, fun existing hexisting => ?_⟩
      cases existing with
      | none =>
          refine ⟨trivial, fun stored hstored => ?_⟩
          cases stored with
          | true =>
              intro heq
              cases hstored (hcandidate _ heq)
          | false => exact hfailed rfl
      | some url =>
          show Prog.Meets _ _ _ (if _ then _ else _)
          split
          · intro heq
            cases hexisting (hcandidate _ heq)
          · exact ih

/-- A POST whose answer is the code has left a row. -/
theorem postOk_row [DecidableEq ι] {left : Nat} {i : ι}
    {now next : Programs ι Call Call.Reply Response (ρ × UrlTable)}
    {es : List (ι × Answer Call Call.Reply)}
    (hrun : Run (Lib.Move Prog.code (StoresServe redis fails)) now es next)
    (hi : now.point i = h.postAttempt request left)
    (hanswer : next.point i = .ret (postOk request code)) :
    HasRow code next.shared := by
  have hboth : HasRow code next.shared
      ∨ (next.point i).Meets (fun _ => True) (NoRow code)
        fun response => response ≠ postOk request code := by
    refine hrun.program_keeps (J := fun stores prog => HasRow code stores
      ∨ prog.Meets (fun _ => True) (NoRow code)
        fun response => response ≠ postOk request code) ?_ ?_ (Or.inr ?_)
    · intro c k r stores stores' hJ hserves
      by_cases hrow : HasRow code stores'
      · exact Or.inl hrow
      · rcases hJ with hbefore | hmeets
        · exact absurd (hbefore.serves hserves) hrow
        · exact Or.inr (hmeets.2 r (noRow_of_serves hserves hrow))
    · intro c r stores stores' prog hJ hserves
      exact hJ.imp (fun hbefore => hbefore.serves hserves) id
    · rw [hi]
      exact postAttempt_noRow left
  rcases hboth with hrow | hmeets
  · exact hrow
  · rw [hanswer] at hmeets
    exact absurd rfl hmeets

-- =================================================================== the GET

/-- What is answered once there is a row of the code. -/
def Finds (fails : Prop) (code : Str) : (c : Call) → c.Reply → Prop
  | .dbLookup code', result => cString code' = code → result.isSome ∨ fails
  | _, _ => True

/-- Where there is a row, it is found. -/
theorem finds_of_serves {c : Call} {s s' : ρ × UrlTable} {r : c.Reply}
    (hserves : StoresServe redis fails c s r s') (hrow : HasRow code s) :
    Finds fails code c r := by
  cases hserves with
  | got => trivial
  | wasSet => trivial
  | stored => trivial
  | lookedUp htable =>
      intro hcode
      cases htable with
      | failed hfails => exact Or.inr hfails
      | found =>
          subst hcode
          left
          rw [Option.isSome_map]
          exact hrow

/-- Then a GET of the code is redirected, or the database has failed. -/
theorem getRedirect_finds (hcode : '\x00' ∉ code) :
    (getRedirect request code).Meets (fun _ => True) (Finds fails code)
      fun response => response.statusCode = 302
        ∨ (fails ∧ response = stockResponse .c404) := by
  refine ⟨trivial, fun result _ => ?_⟩
  cases result with
  | some url => exact Or.inl rfl
  | none =>
      refine ⟨trivial, fun found hfound => ?_⟩
      cases found with
      | some url => exact ⟨trivial, fun _ _ => Or.inl rfl⟩
      | none =>
          rcases hfound (cString_eq_iff.mpr hcode) with hsome | hfails
          · cases hsome
          · exact Or.inr ⟨hfails, rfl⟩

/-- A GET of a code resolves it. -/
theorem handleRequest_get (hget : request.method = "GET".toList)
    (huri : request.uri = h.baseUri ++ '/' :: code)
    (hlength : code.length = shortUrlLength) :
    h.handleRequest request = getRedirect request code
      ∧ h.codeOf request = code := by
  have hdrop : request.uri.drop (h.baseUri.length + 1) = code := by
    rw [huri, List.drop_append]
    simp
  have hbase : request.uri ≠ h.baseUri := by
    rw [huri]
    simp
  have huriLength : request.uri.length
      = h.baseUri.length + shortUrlLength + 1 := by
    rw [huri, List.length_append, List.length_cons, hlength]
    rfl
  refine ⟨?_, hdrop⟩
  have hnot : ¬ request.method = "POST".toList := by
    rw [hget]
    decide
  rw [handleRequest, if_neg hnot, if_pos hget, handleGetRequest,
    if_neg hbase, if_neg (not_not.mpr huriLength), hdrop]

/-- A GET that begins when there is a row. -/
theorem getRedirect_found [DecidableEq ι] {i : ι} {response : Response}
    {now next : Programs ι Call Call.Reply Response (ρ × UrlTable)}
    {es : List (ι × Answer Call Call.Reply)}
    (hrun : Run (Lib.Move Prog.code (StoresServe redis fails)) now es next)
    (hcode : '\x00' ∉ code) (hrow : HasRow code now.shared)
    (hi : now.point i = getRedirect request code)
    (hanswer : next.point i = .ret response) :
    response.statusCode = 302 ∨ (fails ∧ response = stockResponse .c404) := by
  have hboth : HasRow code next.shared
      ∧ (next.point i).Meets (fun _ => True) (Finds fails code)
        fun response => response.statusCode = 302
          ∨ (fails ∧ response = stockResponse .c404) := by
    refine hrun.program_keeps (J := fun stores prog => HasRow code stores
      ∧ prog.Meets (fun _ => True) (Finds fails code)
        fun response => response.statusCode = 302
          ∨ (fails ∧ response = stockResponse .c404)) ?_ ?_ ⟨hrow, ?_⟩
    · intro c k r stores stores' hJ hserves
      obtain ⟨hbefore, hmeets⟩ := hJ
      exact ⟨hbefore.serves hserves,
        hmeets.2 r (finds_of_serves hserves hbefore)⟩
    · intro c r stores stores' prog hJ hserves
      exact hJ.imp (fun hbefore => hbefore.serves hserves) id
    · rw [hi]
      exact getRedirect_finds hcode
  obtain ⟨-, hmeets⟩ := hboth
  rw [hanswer] at hmeets
  exact hmeets

-- ================================================================== the pools

/-- Over the pools: a POST has its answer, and then a GET of the code
begins. -/
theorem pooled_found [DecidableEq ι] {redisPoolSize dbPoolSize : UInt64}
    {s : ρ} {table : UrlTable} {handlers : ι → Prog Call Call.Reply Response}
    {es es' : List (ClientEvent ι)} {mid now : PooledTraffic ι Response ρ}
    (hbefore : Run (PooledStep redis)
      (pooledStart redisPoolSize dbPoolSize s table handlers) es mid)
    (hafter : Run (PooledStep redis) mid es' now)
    (hfails : ∀ e ∈ es ++ es', ClientFailure e.2 → fails)
    (halive : ProcessAlive now) {i j : ι} {left : Nat} {posted : Request}
    {response : Response} (hcode : '\x00' ∉ code)
    (hpost : handlers i = h.postAttempt posted left)
    (hposted : mid.point i = .outside (.ret (postOk posted code)))
    (hget : mid.point j = .outside (getRedirect request code))
    (hanswer : now.point j = .outside (.ret response)) :
    response.statusCode = 302 ∨ (fails ∧ response = stockResponse .c404) := by
  obtain ⟨hfails, hfails'⟩ := List.forall_mem_append.mp hfails
  have haliveMid := alive_of_run hafter halive
  have hstart := pooled_start fails redisPoolSize dbPoolSize s table handlers
  obtain ⟨hmid, -⟩ := pooled_run hbefore haliveMid hfails hstart
  obtain ⟨hnow, -⟩ := pooled_run hafter halive hfails' hmid
  obtain ⟨abs, habs⟩ := hnow.exists_alongside redis
  obtain ⟨fs', absMid, hruns', hrelMid⟩ :=
    habs.before hmid hafter halive hfails'
  obtain ⟨fs, absStart, hruns, hrel⟩ :=
    hrelMid.before hstart hbefore haliveMid hfails
  rw [hrel.eq_start] at hruns
  have hagreesMid := Agrees.of_alongside hrelMid
  have hagrees := Agrees.of_alongside habs
  have hrow : HasRow code absMid.shared :=
    postOk_row hruns hpost (hagreesMid.point i _ hposted)
  exact getRedirect_found hruns' hcode hrow (hagreesMid.point j _ hget)
    (hagrees.point j _ hanswer)

-- ============================================================= only one URL

/-- Nothing but the URL is there for the code at the start, and nothing
else is posted under it. -/
structure Unrivalled (h : ShortenRequestHandler) (reqs : ι → Request)
    (redis₀ : Str → Option Str) (table₀ : UrlTable) (code url : Str) :
    Prop where
  redis : ∀ v, redis₀ code = some v → v = cString url
  table : ∀ v, table₀ code = some v → cString v = cString url
  posts : ∀ i k, (reqs i).method = "POST".toList → k < kMaxAttempts →
    h.candidateShort (reqs i).body k = code →
    cString (reqs i).body = cString url

/-- So the code resolves to nothing else. -/
theorem Unrivalled.resolves {reqs : ι → Request} {redis₀ : Str → Option Str}
    {table₀ : UrlTable} {url v : Str} (hcode : '\x00' ∉ code)
    (hunrivalled : Unrivalled h reqs redis₀ table₀ code url)
    (hresolves : Resolves h reqs redis₀ table₀ code v) : v = cString url := by
  rcases hresolves with hredis | hgenuine
  · exact hunrivalled.redis v hredis
  · rw [cString_eq_iff.mpr hcode] at hgenuine
    cases hgenuine with
    | row hrow => exact hunrivalled.table _ hrow
    | posted hpost hk hcandidate =>
        rw [cString_eq_iff.mpr (candidateShort_plain _ _)] at hcandidate
        exact hunrivalled.posts _ _ hpost hk hcandidate

end ShortenRequestHandler

end Creeper
