/-
The shortener over its pools.

Everything here is about requests handled at once over the two pools,
with whatever failures the clients meet. `clients_atomic` brings it back
to requests over the stores, and there it is a rely-guarantee argument:
what the handlers put into the stores is genuine, so what they get from
them is.

`pooled_genuine` says that no URL comes out of thin air. A row of the
table was there at the start, or is the body of a POST under one of its
five codes; and a redirect goes to what Redis or the table had, or to
what was posted under the code that was asked for.

`pooled_calls` is about the calls themselves. Where no client fails and
nothing has a NUL in it, requests over the pools are requests whose calls
are served one at a time on two maps, which is the system of
`Creeper.Proofs.Shorten.Interleave`.
-/
import Creeper.Proofs.Pools.Realized
import Creeper.Proofs.Shorten.Codes
import Creeper.Proofs.Shorten.Interleave
import Creeper.Proofs.Shorten.Sequential
import Creeper.Proofs.Shorten.UriForm

namespace Creeper

open Lib

namespace ShortenRequestHandler

variable {ι : Type} {h : ShortenRequestHandler} {reqs : ι → Request}
  {redis₀ : Str → Option Str} {table₀ : UrlTable}

-- ============================================================ where URLs come from

/-- Where what the table has under a code comes from: a row of the start,
or the body of a POST that tries the code. -/
inductive Genuine (h : ShortenRequestHandler) (reqs : ι → Request)
    (table₀ : UrlTable) (code : Str) : Str → Prop
  | row {v : Str} (hrow : table₀ code = some v) :
      Genuine h reqs table₀ code (cString v)
  | posted {i : ι} {k : Nat} (hpost : (reqs i).method = "POST".toList)
      (hk : k < kMaxAttempts)
      (hcode : cString (h.candidateShort (reqs i).body k) = code) :
      Genuine h reqs table₀ code (cString (reqs i).body)

/-- Where a redirect of a code may go. -/
def Resolves (h : ShortenRequestHandler) (reqs : ι → Request)
    (redis₀ : Str → Option Str) (table₀ : UrlTable) (code url : Str) : Prop :=
  redis₀ code = some url ∨ Genuine h reqs table₀ (cString code) url

/-- All that the stores have is genuine. -/
structure GenuineStores (h : ShortenRequestHandler) (reqs : ι → Request)
    (redis₀ : Str → Option Str) (table₀ : UrlTable)
    (stores : (Str → Option Str) × UrlTable) : Prop where
  redis : ∀ code url, stores.1 code = some url →
    Resolves h reqs redis₀ table₀ code url
  table : ∀ code v, stores.2 code = some v →
    Genuine h reqs table₀ code (cString v)

/-- What a handler puts into the stores. -/
def PutsGenuine (h : ShortenRequestHandler) (reqs : ι → Request)
    (table₀ : UrlTable) : Call → Prop
  | .redisSet code url => Genuine h reqs table₀ (cString code) url
  | .dbStore code url => Genuine h reqs table₀ (cString code) (cString url)
  | _ => True

/-- What it gets from them. -/
def GetsGenuine (h : ShortenRequestHandler) (reqs : ι → Request)
    (redis₀ : Str → Option Str) (table₀ : UrlTable) :
    (c : Call) → c.Reply → Prop
  | .redisGet code, result =>
      ∀ url, result = some url → Resolves h reqs redis₀ table₀ code url
  | .dbLookup code, result =>
      ∀ url, result = some url → Genuine h reqs table₀ (cString code) url
  | _, _ => True

/-- The code in the URI of a GET. -/
def codeOf (h : ShortenRequestHandler) (request : Request) : Str :=
  request.uri.drop (h.baseUri.length + 1)

/-- A redirect is to what the code of the request resolves to. -/
def AnswersGenuine (h : ShortenRequestHandler) (reqs : ι → Request)
    (redis₀ : Str → Option Str) (table₀ : UrlTable) (request : Request)
    (response : Response) : Prop :=
  response.statusCode = 302 → ∃ url, response = redirect request url
    ∧ Resolves h reqs redis₀ table₀ (h.codeOf request) url

-- ================================================================== the stores

/-- A row that is genuine leaves the table so. -/
theorem GenuineStores.upsert {m : Str → Option Str} {t : UrlTable}
    {code url : Str} (hI : GenuineStores h reqs redis₀ table₀ (m, t))
    (hgenuine : Genuine h reqs table₀ (cString code) (cString url)) :
    GenuineStores h reqs redis₀ table₀
      (m, upsert t (cString code) (cString url)) := by
  refine ⟨hI.redis, fun code' v hrow => ?_⟩
  rcases upsert_eq_some hrow with ⟨rfl, rfl⟩ | ⟨-, hrow⟩
  · rw [cString_cString]
    exact hgenuine
  · exact hI.table code' v hrow

/-- The stores serve what is genuine, and stay so. -/
theorem GenuineStores.serves {fails : Prop} {c : Call}
    {s s' : (Str → Option Str) × UrlTable} {r : c.Reply}
    (hI : GenuineStores h reqs redis₀ table₀ s)
    (hput : PutsGenuine h reqs table₀ c)
    (hserves : StoresServe RedisMap fails c s r s') :
    GenuineStores h reqs redis₀ table₀ s'
      ∧ GetsGenuine h reqs redis₀ table₀ c r := by
  cases hserves with
  | got hredis =>
      cases hredis with
      | get => exact ⟨hI, fun url hurl => hI.redis _ url hurl⟩
      | getThrew => exact ⟨hI, fun url hurl => nomatch hurl⟩
  | wasSet hredis =>
      cases hredis with
      | set =>
          refine ⟨⟨fun code' url' hurl => ?_, hI.table⟩, trivial⟩
          rcases upsert_eq_some hurl with ⟨rfl, rfl⟩ | ⟨-, hurl⟩
          · exact Or.inr hput
          · exact hI.redis code' url' hurl
  | lookedUp htable =>
      cases htable with
      | found =>
          refine ⟨hI, fun url hurl => ?_⟩
          obtain ⟨v, hrow, rfl⟩ := Option.map_eq_some_iff.mp hurl
          exact hI.table _ v hrow
      | failed => exact ⟨hI, fun url hurl => nomatch hurl⟩
  | stored htable =>
      cases htable with
      | stored => exact ⟨hI.upsert hput, trivial⟩
      | unreported => exact ⟨hI.upsert hput, trivial⟩
      | failed => exact ⟨hI, trivial⟩

-- ================================================================ the handlers

/-- A stock response is no redirect. -/
theorem stockResponse_ne_redirect (c : StockCode) :
    (stockResponse c).statusCode ≠ 302 := by
  cases c <;> decide

/-- A response that is no redirect. -/
theorem answersGenuine_of_ne {request : Request} {response : Response}
    (hne : response.statusCode ≠ 302) :
    AnswersGenuine h reqs redis₀ table₀ request response :=
  fun hredirect => absurd hredirect hne

variable (h reqs redis₀ table₀) in
/-- A program that puts what is genuine, if it gets what is genuine. -/
abbrev KeepsGenuine (request : Request) (p : Prog Call Call.Reply Response) :
    Prop :=
  p.Meets (PutsGenuine h reqs table₀) (GetsGenuine h reqs redis₀ table₀)
    (AnswersGenuine h reqs redis₀ table₀ request)

/-- A POST stores its body, under one of its codes. -/
theorem postAttempt_genuine {i : ι}
    (hpost : (reqs i).method = "POST".toList) (left : Nat)
    (hleft : left ≤ kMaxAttempts) :
    KeepsGenuine h reqs redis₀ table₀ (reqs i)
      (h.postAttempt (reqs i) left) := by
  induction left with
  | zero => exact answersGenuine_of_ne (by simp)
  | succ left ih =>
      have hk : kMaxAttempts - (left + 1) < kMaxAttempts := by
        show 5 - (left + 1) < 5
        omega
      rw [postAttempt]
      refine ⟨trivial, fun existing _ => ?_⟩
      cases existing with
      | none =>
          refine ⟨.posted hpost hk rfl, fun stored _ => ?_⟩
          cases stored with
          | true => exact answersGenuine_of_ne (by simp [postOk])
          | false => exact answersGenuine_of_ne (by simp)
      | some url =>
          show Prog.Meets _ _ _ (if _ then _ else _)
          split
          · exact answersGenuine_of_ne (by simp [postOk])
          · exact ih (Nat.le_of_succ_le hleft)

/-- A GET redirects to what its code resolves to, and puts it into Redis
if it has it from the table. -/
theorem getRedirect_genuine (request : Request) :
    KeepsGenuine h reqs redis₀ table₀ request
      (getRedirect request (h.codeOf request)) := by
  refine ⟨trivial, fun result hresult => ?_⟩
  cases result with
  | some url => exact fun _ => ⟨url, rfl, hresult url rfl⟩
  | none =>
      refine ⟨trivial, fun found hfound => ?_⟩
      cases found with
      | none => exact answersGenuine_of_ne (stockResponse_ne_redirect _)
      | some url =>
          have hgenuine := hfound url rfl
          exact ⟨hgenuine, fun _ _ _ => ⟨url, rfl, Or.inr hgenuine⟩⟩

/-- So does every request. -/
theorem handleRequest_genuine (i : ι) :
    KeepsGenuine h reqs redis₀ table₀ (reqs i)
      (h.handleRequest (reqs i)) := by
  rw [handleRequest]
  split
  · next hpost => exact postAttempt_genuine hpost kMaxAttempts (Nat.le_refl _)
  · split
    · rw [handleGetRequest]
      split
      · exact answersGenuine_of_ne (servePage_status h (reqs i))
      · split
        · exact answersGenuine_of_ne (stockResponse_ne_redirect _)
        · exact getRedirect_genuine (reqs i)
    · exact answersGenuine_of_ne (stockResponse_ne_redirect _)

-- ==================================================================== the runs

/-- Programs that put what is genuine over the pools, whatever they do and
whatever fails. -/
theorem genuine_of_run [DecidableEq ι] {redisPoolSize dbPoolSize : UInt64}
    {handlers : ι → Prog Call Call.Reply Response}
    (hkeeps : ∀ i, KeepsGenuine h reqs redis₀ table₀ (reqs i) (handlers i))
    {es : List (ClientEvent ι)}
    {now : PooledTraffic ι Response (Str → Option Str)}
    (hrun : Run (PooledStep RedisMap)
      (pooledStart redisPoolSize dbPoolSize redis₀ table₀ handlers) es now)
    (halive : ProcessAlive now) :
    GenuineStores h reqs redis₀ table₀ now.shared.stores
      ∧ ∀ i response, now.point i = .outside (.ret response) →
        AnswersGenuine h reqs redis₀ table₀ (reqs i) response := by
  obtain ⟨_, abs, hruns, hagrees⟩ :=
    clients_run hrun (fun _ _ _ => trivial) halive
  have hstart : GenuineStores h reqs redis₀ table₀ (redis₀, table₀) :=
    ⟨fun code url hurl => Or.inl hurl, fun code v hrow => .row hrow⟩
  have hboth : GenuineStores h reqs redis₀ table₀ abs.shared
      ∧ ∀ i, KeepsGenuine h reqs redis₀ table₀ (reqs i) (abs.point i) :=
    hruns.programs_meet
      (fun _ _ _ _ _ hI hput hserves => hI.serves hput hserves) hstart hkeeps
  obtain ⟨hstores, hanswers⟩ := hboth
  refine ⟨by rw [← hagrees.stores]; exact hstores, fun i response hi => ?_⟩
  have hi := hagrees.point i _ hi
  have hpost := hanswers i
  rw [hi] at hpost
  exact hpost

-- ============================================================== one that is run

/-- A POST whose first code is free, by itself. -/
theorem post_alone {ρ : Type}
    {redis : Service RedisCommand RedisCommand.Reply ρ} {request : Request}
    {s : ρ} {table : UrlTable} (hpost : request.method = "POST".toList)
    (hfree : table (cString (h.candidateShort request.body 0)) = none) :
    ∃ as, Run (Solo Prog.code (StoresServe redis False))
      ((s, table), h.handleRequest request) as
      ((s, Lib.upsert table (cString (h.candidateShort request.body 0))
        (cString request.body)),
        .ret (postOk request (h.candidateShort request.body 0))) := by
  have hprog : h.handleRequest request = h.postAttempt request (4 + 1) := by
    rw [handleRequest, if_pos hpost]
    rfl
  have hnone : StoresServe redis False
      (.dbLookup (h.candidateShort request.body 0)) (s, table)
      (none : Option Str) (s, table) := by
    have hfound : TableServes False
        (.lookup (h.candidateShort request.body 0)) table
        ((table (cString (h.candidateShort request.body 0))).map cString)
        table := .found
    rw [hfree] at hfound
    exact .lookedUp hfound
  rw [hprog, postAttempt]
  exact ⟨_, .cons (.call rfl hnone)
    (.cons (.call rfl (.stored .stored)) (.nil _))⟩

/-- One of two requests is such a POST, and has been answered. -/
theorem post_run {ρ : Type}
    {redis : Service RedisCommand RedisCommand.Reply ρ}
    (hredis : NeverThrows redis) (s : ρ) :
    ∃ es, ∃ now : PooledTraffic Bool Response ρ,
      Run (PooledStep redis) (pooledStart 1 1 s (fun _ => none) fun _ : Bool =>
        colliding.handleRequest (postOf "a".toList)) es now
      ∧ (∀ e ∈ es, ¬ ClientFailure e.2)
      ∧ ProcessAlive now
      ∧ now.point true = .outside
        (.ret (postOk (postOf "a".toList) "000000".toList)) := by
  obtain ⟨as, hsolo⟩ := @post_alone colliding _ redis (postOf "a".toList) s
    (fun _ => none) rfl rfl
  rw [colliding_candidateShort] at hsolo
  have hstores := hsolo.of_solo
    (fun _ => colliding.handleRequest (postOf "a".toList)) true
  rw [Function.update_eq_self] at hstores
  have hone : (0 : UInt64) < 1 := by decide
  obtain ⟨es, now, hrun, hfine, hnow⟩ := Paused.run hredis hstores
    (paused_start s (fun _ => none) _ hone hone)
  exact ⟨es, now, hrun, hfine, hnow.alive, hnow.point true⟩

/-- No URL comes out of thin air: whatever the requests over the pools do
and whatever fails, the stores have only what they had and what was
posted, and redirects go there. -/
theorem pooled_genuine [DecidableEq ι] (h : ShortenRequestHandler)
    (reqs : ι → Request) (redisPoolSize dbPoolSize : UInt64)
    (redis₀ : Str → Option Str) (table₀ : UrlTable)
    {es : List (ClientEvent ι)}
    {now : PooledTraffic ι Response (Str → Option Str)}
    (hrun : Run (PooledStep RedisMap)
      (pooledStart redisPoolSize dbPoolSize redis₀ table₀
        fun i => h.handleRequest (reqs i)) es now)
    (halive : ProcessAlive now) :
    GenuineStores h reqs redis₀ table₀ now.shared.stores
      ∧ ∀ i response, now.point i = .outside (.ret response) →
        AnswersGenuine h reqs redis₀ table₀ (reqs i) response :=
  genuine_of_run handleRequest_genuine hrun halive

theorem pooled_genuine_post :
    ∃ es, ∃ now : PooledTraffic Bool Response (Str → Option Str),
      Run (PooledStep RedisMap)
        (pooledStart 1 1 (fun _ => none) (fun _ => none) fun _ : Bool =>
          colliding.handleRequest (postOf "a".toList)) es now
      ∧ now.point true = .outside
        (.ret (postOk (postOf "a".toList) "000000".toList))
      ∧ GenuineStores colliding (fun _ : Bool => postOf "a".toList)
        (fun _ => none) (fun _ => none) now.shared.stores := by
  obtain ⟨es, now, hrun, -, halive, hanswered⟩ :=
    post_run (neverThrows_answering RedisMap) fun _ => none
  have hsame : Run (PooledStep RedisMap) _ es now :=
    hrun.mono fun _ _ _ hstep =>
      ⟨hstep.1, hstep.2.over serves_of_answering⟩
  exact ⟨es, now, hsame, hanswered,
    (pooled_genuine colliding _ 1 1 _ _ hsame halive).1⟩

-- =============================================================== plain requests

/-- Redis as a map. -/
inductive HealthyRedis :
    Service RedisCommand RedisCommand.Reply (Str → Option Str)
  | get {key : Str} {m : Str → Option Str} :
      HealthyRedis (.get key) m (some (m key)) m
  | set {key value : Str} {m : Str → Option Str} :
      HealthyRedis (.set key value) m (some ()) (upsert m key value)

/-- A call that gives the database no NUL. -/
def PlainCall : Call → Prop
  | .dbLookup code => '\x00' ∉ code
  | .dbStore code url => '\x00' ∉ code ∧ '\x00' ∉ url
  | _ => True

/-- A table without NUL in its rows. -/
def PlainTable (t : UrlTable) : Prop :=
  ∀ code v, t code = some v → '\x00' ∉ v

/-- A request without NUL where the shortener looks. -/
def PlainRequest (request : Request) : Prop :=
  '\x00' ∉ request.body ∧ '\x00' ∉ request.uri

/-- The stores as the two maps of a `World`. -/
def worldOf (stores : (Str → Option Str) × UrlTable) : World :=
  ⟨stores.1, stores.2⟩

/-- Short codes are of base 62. -/
theorem mem_base62OfHash {num : UInt64} {c : Char}
    (hc : c ∈ base62OfHash num) : c ∈ base62Chars := by
  rw [base62OfHash_eq] at hc
  obtain ⟨d, -, rfl⟩ := List.mem_map.mp hc
  rw [base62Char, List.getD_eq_getElem?_getD]
  cases hchar : base62Chars[d]? with
  | none => decide
  | some c => exact List.mem_of_getElem? hchar

/-- So they have no NUL. -/
theorem candidateShort_plain (u : Str) (k : Nat) :
    '\x00' ∉ h.candidateShort u k := by
  intro hmem
  exact absurd (mem_base62OfHash hmem) (by decide)

/-- A plain POST makes plain calls. -/
theorem postAttempt_plain {request : Request}
    (hbody : '\x00' ∉ request.body) (left : Nat) :
    (h.postAttempt request left).AllCalls PlainCall := by
  induction left with
  | zero => trivial
  | succ left ih =>
      rw [postAttempt]
      refine ⟨candidateShort_plain _ _, fun existing => ?_⟩
      cases existing with
      | none =>
          refine ⟨⟨candidateShort_plain _ _, hbody⟩, fun stored => ?_⟩
          cases stored <;> trivial
      | some url =>
          show Prog.AllCalls _ (if _ then _ else _)
          split
          · trivial
          · exact ih

/-- And so does any plain request. -/
theorem handleRequest_plain {request : Request} (hplain : PlainRequest request) :
    (h.handleRequest request).AllCalls PlainCall := by
  obtain ⟨hbody, huri⟩ := hplain
  rw [handleRequest]
  split
  · exact postAttempt_plain hbody kMaxAttempts
  · split
    · rw [handleGetRequest]
      split
      · trivial
      · split
        · trivial
        · refine ⟨trivial, fun result => ?_⟩
          cases result with
          | some url => trivial
          | none =>
              refine ⟨fun hmem => huri (List.mem_of_mem_drop hmem),
                fun found => ?_⟩
              cases found with
              | none => trivial
              | some url => exact ⟨trivial, fun _ => trivial⟩
    · trivial

/-- A plain call on plain stores, served without failure, is the call on
two maps. -/
theorem performs_of_serves {c : Call} {s s' : (Str → Option Str) × UrlTable}
    {r : c.Reply} (hplain : PlainCall c) (htable : PlainTable s.2)
    (hserves : StoresServe HealthyRedis False c s r s') :
    perform false c (worldOf s) = (worldOf s', r) ∧ PlainTable s'.2 := by
  cases hserves with
  | got hredis =>
      cases hredis with
      | get => exact ⟨rfl, htable⟩
  | wasSet hredis =>
      cases hredis with
      | set => exact ⟨rfl, htable⟩
  | @lookedUp code m t t' _ hserves =>
      cases hserves with
      | found =>
          refine ⟨?_, htable⟩
          have hsame : (t (cString code)).map cString = t code := by
            rw [cString_eq_iff.mpr hplain]
            cases hrow : t code with
            | none => rfl
            | some v =>
                exact congrArg some (cString_eq_iff.mpr (htable code v hrow))
          rw [hsame]
          rfl
      | failed hfails => exact hfails.elim
  | @stored code url m t t' _ hserves =>
      obtain ⟨hcode, hurl⟩ := hplain
      cases hserves with
      | stored =>
          rw [cString_eq_iff.mpr hcode, cString_eq_iff.mpr hurl]
          refine ⟨rfl, fun code' v hrow => ?_⟩
          rcases upsert_eq_some hrow with ⟨-, rfl⟩ | ⟨-, hrow⟩
          · exact hurl
          · exact htable code' v hrow
      | unreported hfails => exact hfails.elim
      | failed hfails => exact hfails.elim

variable [DecidableEq ι]

/-- Plain stores, and requests that make plain calls. -/
structure AllPlain (now : Programs ι Call Call.Reply Response
    ((Str → Option Str) × UrlTable)) : Prop where
  table : PlainTable now.shared.2
  calls : ∀ i, (now.point i).AllCalls PlainCall

/-- The same as requests on two maps. -/
def trafficOf (now : Programs ι Call Call.Reply Response
    ((Str → Option Str) × UrlTable)) : Traffic ι :=
  ⟨worldOf now.shared, now.point⟩

/-- A step over plain stores is a call on the two maps. -/
theorem callStep_of_move {now next : Programs ι Call Call.Reply Response
      ((Str → Option Str) × UrlTable)} {e : ι × Answer Call Call.Reply}
    (hplain : AllPlain now)
    (hmove : Lib.Move Prog.code (StoresServe HealthyRedis False) now e next) :
    CallStep (trafficOf now) e.1 (trafficOf next) ∧ AllPlain next := by
  obtain ⟨s, point⟩ := now
  cases hmove with
  | @call i c k r s' hcode hserves =>
      have hcall : point i = .call c k := by
        cases hprog : point i with
        | ret response =>
            simp only [hprog, Prog.code] at hcode
            cases hcode
        | call c' k' =>
            simp only [hprog, Prog.code] at hcode
            cases hcode
            rfl
      have hi := hplain.calls i
      simp only [hcall] at hi
      obtain ⟨hperform, htable⟩ :=
        performs_of_serves hi.1 hplain.table hserves
      refine ⟨?_, htable, ?_⟩
      · have hstep : CallStep (trafficOf ⟨s, point⟩) i
            ⟨(perform false c (worldOf s)).1,
              Function.update point i (k (perform false c (worldOf s)).2)⟩ :=
          .call c k hcall
        rw [hperform] at hstep
        exact hstep
      · show ∀ j, (Function.update point i (k r) j).AllCalls PlainCall
        rw [Function.forall_update_iff point fun _ p => p.AllCalls PlainCall]
        exact ⟨hi.2 r, fun j _ => hplain.calls j⟩

/-- The process ends where a `set` throws. -/
theorem exited_of_step {p : RedisPoint} {c : PoolCall Nat RedisCommand}
    {k : PoolCall.Reply RedisCommand.Reply c → RedisPoint}
    {r : PoolCall.Reply RedisCommand.Reply c}
    (hcode : RealRedisClient.code p = some ⟨c, k⟩) (h : k r = .exited) :
    ∃ conn code url, (⟨c, r⟩ : Answer _ (PoolCall.Reply RedisCommand.Reply))
      = ⟨.command conn (.set code url), none⟩ := by
  cases p with
  | call call => cases call <;> cases hcode <;> cases h
  | getCommand conn code =>
      cases hcode
      cases r <;> cases h
  | setCommand conn code url =>
      cases hcode
      cases r with
      | some u => cases h
      | none => exact ⟨conn, code, url, rfl⟩
  | getRelease conn result =>
      cases hcode
      cases h
  | setRelease conn =>
      cases hcode
      cases h
  | _ => cases hcode

/-- Redis as a map answers every command. -/
theorem healthy_answers {c : PoolCall Nat RedisCommand}
    {r : PoolCall.Reply RedisCommand.Reply c}
    {pool pool' : Pool Nat (Str → Option Str)}
    (h : Pool.Serves (fun _ => HealthyRedis) c pool r pool') {conn : Nat}
    {code url : Str} :
    (⟨c, r⟩ : Answer _ (PoolCall.Reply RedisCommand.Reply))
      ≠ ⟨.command conn (.set code url), none⟩ := by
  intro heq
  cases h with
  | acquire => cases heq
  | release => cases heq
  | command hserves =>
      cases hserves with
      | get => cases heq
      | set => cases heq

/-- Where Redis answers, no request ends the process. -/
theorem healthy_alive {now next : PooledTraffic ι Response (Str → Option Str)}
    {e : ClientEvent ι} (h : PooledStep HealthyRedis now e next) :
    ProcessAlive next := by
  obtain ⟨halive, hmove⟩ := h
  obtain ⟨i, c', next', r, -, hcode, hserves, hpoint, hother⟩ := hmove.inv
  obtain ⟨c, k, p, go, -, hown, rfl⟩ := Implementation.layered_inv hcode
  intro j hexited
  by_cases hj : j = i
  · subst hj
    rw [hpoint] at hexited
    obtain ⟨d, m, heq⟩ := hexited
    have hgo := Implementation.point_of_settle heq
    generalize next.shared = after at hserves
    generalize now.shared = before at hserves
    rcases Code.beside_inv hown with
      ⟨p, c₁, g, rfl, hredis, hsame⟩ | ⟨p, c₂, g, rfl, -, hsame⟩
    · cases hsame
      cases hserves with
      | left hleft =>
          obtain ⟨conn, code, url, hthrew⟩ :=
            exited_of_step hredis (Sum.inl.inj hgo)
          exact healthy_answers hleft hthrew
    · cases hsame
      cases hgo
  · rw [hother j hj] at hexited
    exact halive j hexited

/-- Over pools whose clients meet no failure, plain requests are requests
that make one call at a time on two maps. -/
theorem pooled_calls (h : ShortenRequestHandler) (reqs : ι → Request)
    (redisPoolSize dbPoolSize : UInt64) (redis₀ : Str → Option Str)
    (table₀ : UrlTable) (hplain : ∀ i, PlainRequest (reqs i))
    (htable : PlainTable table₀) {es : List (ClientEvent ι)}
    {now : PooledTraffic ι Response (Str → Option Str)}
    (hrun : Run (PooledStep HealthyRedis)
      (pooledStart redisPoolSize dbPoolSize redis₀ table₀
        fun i => h.handleRequest (reqs i)) es now)
    (hfine : ∀ e ∈ es, ¬ ClientFailure e.2) :
    ∃ sched cf, Run CallStep (h.arrive ⟨redis₀, table₀⟩ reqs) sched cf
      ∧ cf.shared = worldOf now.shared.stores
      ∧ ∀ i prog, now.point i = .outside prog → cf.thread i = prog := by
  have halive : ProcessAlive now := by
    refine hrun.invariant (fun _ _ _ _ hstep => healthy_alive hstep) ?_
    intro i hexited
    obtain ⟨c, k, heq⟩ := hexited
    cases heq
  obtain ⟨_, abs, hruns, hagrees⟩ := clients_run hrun hfine halive
  have hstart : AllPlain (ι := ι)
      ⟨(redis₀, table₀), fun i => h.handleRequest (reqs i)⟩ :=
    ⟨htable, fun i => handleRequest_plain (hplain i)⟩
  have hguarded := hruns.guarded_of_invariant
    (I := AllPlain) (fun _ _ _ hI hmove => (callStep_of_move hI hmove).2)
    hstart
  have hsim : ∀ s e t, Guarded (fun s _ => AllPlain (ι := ι) s)
      (Lib.Move Prog.code (StoresServe HealthyRedis False)) s e t →
      CallStep (trafficOf s) e.1 (trafficOf t) :=
    fun _ _ _ hstep => (callStep_of_move hstep.1 hstep.2).1
  exact ⟨_, trafficOf abs, hguarded.simulates hsim,
    congrArg worldOf hagrees.stores, hagrees.point⟩

theorem pooled_calls_post :
    ∃ es, ∃ now : PooledTraffic Bool Response (Str → Option Str),
      Run (PooledStep HealthyRedis)
        (pooledStart 1 1 (fun _ => none) (fun _ => none) fun _ : Bool =>
          colliding.handleRequest (postOf "a".toList)) es now
      ∧ ∃ sched cf, Run CallStep
          (colliding.arrive emptyWorld fun _ : Bool => postOf "a".toList)
          sched cf
        ∧ cf.thread true = .ret (postOk (postOf "a".toList) "000000".toList) := by
  have hnever : NeverThrows HealthyRedis := by
    intro c s reply s' hserves
    cases hserves <;> rfl
  obtain ⟨es, now, hrun, hfine, -, hanswered⟩ :=
    post_run hnever fun _ => none
  have hplain : PlainRequest (postOf "a".toList) :=
    ⟨by decide, by decide⟩
  have htable : PlainTable fun _ => none := by
    intro code v hrow
    cases hrow
  obtain ⟨sched, cf, hcalls, -, hthread⟩ :=
    pooled_calls colliding (fun _ => postOf "a".toList) 1 1 _ _
      (fun _ => hplain) htable hrun hfine
  exact ⟨es, now, hrun, sched, cf, hcalls, hthread true _ hanswered⟩

end ShortenRequestHandler

end Creeper
