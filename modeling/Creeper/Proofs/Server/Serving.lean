/-
What the server with the shortener can answer.

`server_serves` is the other direction of `Creeper.Proofs.Server.Pooled`,
for one connection: the responses that the handlers give when each of
them runs to its end over the two stores, one after the other, are sent
by the server over its pools and threads. So the threads, the pools and
libpq are no more than what they are for.
-/
import Creeper.PooledServer
import Creeper.Proofs.Pools.Realized
import Creeper.Proofs.Server.Conversation
import Creeper.Proofs.Session.Framing
import Creeper.Proofs.Shorten.Posted
import Creeper.Proofs.Shorten.Sequential

namespace Creeper

open Lib

variable {ι ρ : Type} {beast : Beast}
  {handle : Request → Prog Call Call.Reply Response}
  {redis : Service RedisCommand RedisCommand.Reply ρ}

-- =================================================================== a program

/-- A program that goes on by itself over the stores goes on over the
pools. -/
theorem Ready.goes {α : Type}
    {as : List (Answer Call Call.Reply)} {prog prog' : Prog Call Call.Reply α}
    {stores' : ρ × UrlTable} {x : ClientPools ρ} (hready : Ready x)
    (h : Run (Solo Prog.code (StoresServe (Answering redis) False))
      (x.stores, prog) as (stores', prog')) :
    ∃ x' : ClientPools ρ, Goes pooledClients.layered (poolsServe redis)
        (fun _ => True) (x, .outside prog) (x', .outside prog')
      ∧ x'.stores = stores' ∧ Ready x' := by
  generalize hs : (x.stores, prog) = s at h
  generalize ht : (stores', prog') = t at h
  induction h generalizing x prog with
  | nil =>
      subst hs
      cases ht
      exact ⟨x, .refl _, rfl, hready⟩
  | cons hstep _ ih =>
      subst hs
      cases hstep with
      | @call _ mid _ c k r hcode hserves =>
          have hcall : prog = .call c k := by
            cases prog with
            | ret a => cases hcode
            | call c' k' =>
                cases hcode
                rfl
          subst hcall
          obtain ⟨x', p, hgoes, hresult, rfl, hready'⟩ :=
            goes_of_serves (neverThrows_answering redis) hready hserves
          obtain ⟨as, hrun, -⟩ :=
            hgoes.mono fun _ _ _ _ => serves_of_answering
          have hne : as ≠ [] := by
            intro hnil
            subst hnil
            cases hrun
            rw [pooledClients_opens] at hresult
            cases hresult
          have hunder : pooledClients.Under c k (pooledClients.enter c)
              (.outside (.call c k)) := .enter
          have hlayered := Implementation.solo_layered
            (fun p r => pooledClients_ended c p r) hrun hne hunder
          rw [Implementation.settle_of_some hresult] at hlayered
          obtain ⟨x'', hrest, hstores, hready''⟩ := ih hready' rfl ht
          have hfirst : Goes pooledClients.layered (poolsServe redis)
              (fun _ => True) (x, .outside (.call c k))
              (x', .outside (k r)) := ⟨as, hlayered, fun _ _ => trivial⟩
          exact ⟨x'', hfirst.trans hrest, hstores, hready''⟩

-- =================================================================== a message

/-- A message that fits is answered over the stores, by a handler that
runs by itself. -/
def ServedAlone (beast : Beast)
    (handle : Request → Prog Call Call.Reply Response)
    (redis : Service RedisCommand RedisCommand.Reply ρ)
    (stores : ρ × UrlTable) (e : Str × Str) (stores' : ρ × UrlTable) : Prop :=
  0 < e.1.length ∧ e.1.length ≤ maxLength ∧ ∃ as response,
    Run (Solo Prog.code (StoresServe (Answering redis) False))
      (stores, answering beast handle e.1) as (stores', .ret response)
    ∧ e.2 = response.toString

/-- What has returned has no code left. -/
theorem pooledApp_ends (beast : Beast)
    (handle : Request → Prog Call Call.Reply Response) :
    (pooledApp beast handle).Ends := by
  intro requestMsg p ended hended
  cases p with
  | inside c k p => cases hended
  | outside prog =>
      cases prog with
      | call c k => cases hended
      | ret response => rfl

/-- So it is over the pools. -/
theorem ServedAlone.exchange {e : Str × Str}
    {stores' : ρ × UrlTable} {x : ClientPools ρ} (hready : Ready x)
    (h : ServedAlone beast handle redis x.stores e stores') :
    ∃ x' : ClientPools ρ,
      (pooledApp beast handle).Exchange (poolsServe redis) x e x'
      ∧ x'.stores = stores' ∧ Ready x' := by
  obtain ⟨hpos, hfits, as, response, hrun, hresponse⟩ := h
  obtain ⟨x', hgoes, hstores, hready'⟩ := hready.goes hrun
  refine ⟨x', ⟨hpos, hfits, _, hgoes, ?_⟩, hstores, hready'⟩
  rw [hresponse]
  rfl

-- ================================================================ the shortener

namespace ShortenRequestHandler

variable {h : ShortenRequestHandler} {request : Request} {s s' s'' : ρ}
  {table : UrlTable}

/-- A GET of a code that Redis does not have and the table does, by
itself. -/
theorem get_alone {code v : Str} (hget : request.method = "GET".toList)
    (huri : request.uri = h.baseUri ++ '/' :: code)
    (hlength : code.length = shortUrlLength)
    (hmiss : redis (.get code) s (some none) s')
    (hrow : table (cString code) = some v)
    (hset : redis (.set code (cString v)) s' (some ()) s'') :
    ∃ as, Run (Solo Prog.code (StoresServe redis False))
      ((s, table), h.handleRequest request) as
      ((s'', table), .ret (redirect request (cString v))) := by
  obtain ⟨hprog, -⟩ := handleRequest_get hget huri hlength
  have hsome : StoresServe redis False (.dbLookup code) (s', table)
      (some (cString v) : Option Str) (s', table) := by
    have hfound : TableServes False (.lookup code) table
        ((table (cString code)).map cString) table := .found
    rw [hrow] at hfound
    exact .lookedUp hfound
  rw [hprog]
  exact ⟨_, .cons (.call rfl (.got hmiss)) (.cons (.call rfl hsome)
    (.cons (.call rfl (.wasSet hset)) (.nil _)))⟩

end ShortenRequestHandler

/-- And so are any number of messages. -/
theorem Ready.exchanges {exchanges : List (Str × Str)} {x : ClientPools ρ}
    {stores' : ρ × UrlTable} (hready : Ready x)
    (h : Run (ServedAlone beast handle redis) x.stores exchanges stores') :
    ∃ x' : ClientPools ρ,
      Run ((pooledApp beast handle).Exchange (poolsServe redis)) x exchanges x'
      ∧ x'.stores = stores' ∧ Ready x' := by
  generalize hs : x.stores = s at h
  induction h generalizing x with
  | nil => exact ⟨x, .nil x, hs, hready⟩
  | cons hserved _ ih =>
      subst hs
      obtain ⟨mid, hexchange, hstores, hreadyMid⟩ := hserved.exchange hready
      obtain ⟨x', hrest, hend⟩ := ih hreadyMid hstores
      exact ⟨x', .cons hexchange hrest, hend⟩

/-- Pools that have been made with connections are ready. -/
theorem ready_start {redisPoolSize dbPoolSize : UInt64}
    (hredisPool : 0 < redisPoolSize) (hdbPool : 0 < dbPoolSize) (s : ρ)
    (table : UrlTable) :
    Ready (redisConnectionPool redisPoolSize s,
      ⟨List.range dbPoolSize.toNat, ⟨fun _ => .idle, table⟩⟩) :=
  (paused_start (ι := Unit) s table (fun _ => Prog.ret ()) hredisPool
    hdbPool).ready

/-- The server over pools with connections, where nothing fails, can
answer on a connection what the handlers answer over the stores, one
message after the other. -/
theorem server_serves (beast : Beast)
    (handle : Request → Prog Call Call.Reply Response)
    [DecidableEq ι] (i : ι) (buffer : Nat → Buffer)
    {redisPoolSize dbPoolSize : UInt64} (hredisPool : 0 < redisPoolSize)
    (hdbPool : 0 < dbPoolSize) (s : ρ) (table : UrlTable)
    {exchanges : List (Str × Str)} {stores' : ρ × UrlTable}
    (hexchanges : Run (ServedAlone beast handle redis) (s, table) exchanges
      stores') :
    ∃ es, ∃ now : PooledWorkers ι ρ,
      Run (PooledWorkerStep beast handle redis)
        (pooledServerStart buffer redisPoolSize dbPoolSize s table) es now
      ∧ now.shared.1.connection 0
        = ⟨exchanges.map Prod.fst, exchanges.map Prod.snd⟩
      ∧ now.shared.2.stores = stores'
      ∧ ∀ j, now.point j = .run := by
  obtain ⟨x, hrun, hstores, -⟩ :=
    (ready_start hredisPool hdbPool s table).exchanges hexchanges
  obtain ⟨es, es', mid, now, hbefore, hafter, -, hconnection, -, hshared,
    hthreads⟩ := server_talks (pooledApp_ends beast handle) i buffer hrun
      (.nil x)
  simp only [List.map_nil, List.append_nil] at hconnection
  exact ⟨es ++ es', now, hbefore.append hafter, hconnection,
    by rw [hshared, hstores], hthreads⟩

/-- A client posts a URL. -/
def linkPost : Str :=
  "POST /shorten HTTP/1.1\r\nContent-Length: 1\r\n\r\na".toList

/-- A client asks for its code. -/
def linkGet : Str := "GET /shorten/000000 HTTP/1.1\r\n\r\n".toList

namespace ShortenRequestHandler

/-- The request that the POST is. -/
def linkPosted : Request :=
  { postOf "a".toList with
    headers := [⟨"Content-Length".toList, "1".toList⟩] }

theorem parse_linkPost :
    RequestParser.parse reference {} linkPost = linkPosted := by
  decide +kernel

theorem parse_linkGet :
    RequestParser.parse reference {} linkGet = getOf "000000".toList := by
  decide +kernel

/-- The POST is answered with the code. -/
theorem link_posted :
    ServedAlone reference colliding.handleRequest RedisMap
      (fun _ => none, fun _ => none)
      (linkPost, (postOk linkPosted "000000".toList).toString)
      (fun _ => none,
        Lib.upsert (fun _ => none) "000000".toList "a".toList) := by
  obtain ⟨as, hrun⟩ := @post_alone colliding _ (Answering RedisMap)
    linkPosted (fun _ => none) (fun _ => none) rfl rfl
  rw [colliding_candidateShort] at hrun
  refine ⟨by decide, by decide, as, _, ?_, rfl⟩
  unfold answering
  rw [parse_linkPost]
  exact hrun

/-- And the GET with the redirect. -/
theorem link_followed :
    ServedAlone reference colliding.handleRequest RedisMap
      (fun _ => none, Lib.upsert (fun _ => none) "000000".toList "a".toList)
      (linkGet, (redirect (getOf "000000".toList) "a".toList).toString)
      (Lib.upsert (fun _ => none) "000000".toList "a".toList,
        Lib.upsert (fun _ => none) "000000".toList "a".toList) := by
  obtain ⟨as, hrun⟩ := @get_alone _ (Answering RedisMap) colliding
    (getOf "000000".toList) (fun _ => none) (fun _ => none)
    (Lib.upsert (fun _ => none) "000000".toList "a".toList)
    (Lib.upsert (fun _ => none) "000000".toList "a".toList)
    "000000".toList "a".toList rfl rfl rfl ⟨rfl, .get⟩
    (Function.update_self ..) ⟨rfl, .set⟩
  refine ⟨by decide, by decide, as, _, ?_, rfl⟩
  unfold answering
  rw [parse_linkGet]
  exact hrun

theorem server_serves_link :
    ∃ es, ∃ now : PooledWorkers (Fin numThreads) (Str → Option Str),
      Run (PooledWorkerStep reference colliding.handleRequest RedisMap)
        (pooledServerStart (fun _ => zeroBuffer) 1 1 (fun _ => none)
          (fun _ => none)) es now
      ∧ now.shared.1.connection 0 = ⟨[linkPost, linkGet],
        [(postOk linkPosted "000000".toList).toString,
          (redirect (getOf "000000".toList) "a".toList).toString]⟩
      ∧ now.shared.2.stores
        = (Lib.upsert (fun _ => none) "000000".toList "a".toList,
          Lib.upsert (fun _ => none) "000000".toList "a".toList)
      ∧ ∀ j, now.point j = .run :=
  server_serves reference colliding.handleRequest ⟨0, by decide⟩ _ (by decide)
    (by decide) _ _ (.cons link_posted (.cons link_followed (.nil _)))

end ShortenRequestHandler

end Creeper
