/-
Threads that do not wait for each other.

A thread is at most at one place of one handler, and so it holds at most
one connection of each kind. If there are as many connections as threads,
one that needs a connection finds one in the queue, whatever the others
hold: it is the thread that holds none. `server_never_waits` takes this
to the end of the handler. A thread that has a message can send its
response with no step of any other thread, and no wait.

The connections to Redis that a throw has lost are lost for this too, so
there they have to be as many as the threads and the throws.
-/
import Creeper.Proofs.Pools.Progress
import Creeper.Proofs.Server.Pooled
import Creeper.Proofs.Server.Serving

namespace Creeper

open Lib

-- =============================================================== the handlers

section

variable {C : Type} {R : C → Type} {π σ ι : Type} {app : App C R π}
  {below : Service C R σ} {session : Nat} {requestMsg : Str} {p : π}

/-- A thread that goes on in the app has not come to its end. -/
theorem App.proceed_eq_handling {s : Nat} {msg : Str} {q : π}
    (h : app.proceed s msg q = .handling session requestMsg p) :
    app.result requestMsg p = none := by
  unfold App.proceed at h
  cases hresult : app.result msg q with
  | none =>
      rw [hresult] at h
      cases h
      exact hresult
  | some ended =>
      rw [hresult] at h
      cases ended <;> cases h

/-- No handler begins in the app. -/
theorem Completion.handler_ne_handling (completion : Completion) :
    completion.handler ≠ .handling session requestMsg p := by
  cases completion with
  | accepted s ok => cases ok <;> nofun
  | read s bytesTransferred => cases bytesTransferred <;> nofun
  | written s ok => cases ok <;> nofun

/-- A thread comes into the app only where it goes on from it. -/
theorem workerCode_opens {w : WorkerPoint π} {c : ServerCall C}
    {k : ServerCall.Reply R c → WorkerPoint π} {r : ServerCall.Reply R c}
    (h : workerCode app w = some ⟨c, k⟩)
    (hk : k r = .handling session requestMsg p) :
    app.result requestMsg p = none := by
  cases w with
  | run =>
      cases h
      cases r with
      | handler completion =>
          exact absurd hk completion.handler_ne_handling
      | reacted => cases hk
      | stopped => cases hk
  | handleAccept s =>
      cases h
      cases r <;> cases hk
  | handleRead s n =>
      cases h
      exact App.proceed_eq_handling hk
  | handling s msg q =>
      obtain ⟨next, hcode, heq⟩ := Option.map_eq_some_iff.mp h
      cases heq
      exact App.proceed_eq_handling hk
  | logging s msg =>
      cases h
      cases r <;> cases hk
  | finished threw =>
      cases h
      cases threw <;> cases hk
  | exited => cases h
  | returned => cases h
  | _ =>
      cases h
      cases hk

variable [DecidableEq ι] {buffer : Nat → Buffer} {t : σ}
  {now : Workers ι π σ} {es : List (WorkerEvent ι C R)}

/-- A thread in the app has not come to its end. -/
theorem handling_opens
    (h : Run (WorkerStep app below) (serverStart buffer t) es now) {i : ι}
    (hi : now.point i = .handling session requestMsg p) :
    app.result requestMsg p = none := by
  refine h.invariant (I := fun now : Workers ι π σ =>
    ∀ i session requestMsg p, now.point i = .handling session requestMsg p →
      app.result requestMsg p = none) ?_ ?_ i session requestMsg p hi
  · intro now e next hopens hmove j s msg q hj
    obtain ⟨i, c, k, r, -, hcode, -, hown, hother⟩ := hmove.inv
    by_cases hij : j = i
    · subst hij
      rw [hown] at hj
      exact workerCode_opens hcode hj
    · rw [hother j hij] at hj
      exact hopens j s msg q hj
  · nofun

omit [DecidableEq ι] in
/-- What a thread handles is a request of its session. -/
theorem Handled.request {msg : Nat × Nat → Str} {start : Nat × Nat → π}
    {reqs : Requests π σ} (h : Handled app msg start now reqs) {i : ι}
    (hi : now.point i = .handling session requestMsg p) :
    ∃ j, reqs.point (session, j) = p := by
  obtain ⟨abs, hfollows, hreqs⟩ := h
  have hsession : (now.point i).session = some session := by
    rw [hi]
    rfl
  have hthread := hfollows.held i session hsession
  rw [hi] at hthread
  have hat := (hreqs.stages session).stage
  rw [hthread] at hat
  obtain ⟨-, -, -, hpoint⟩ := hat
  exact ⟨_, hpoint⟩

end

-- ============================================================ the connections

/-- The connection that a thread holds. -/
def WorkerPoint.holding (held : ClientPoint → Option Nat) :
    WorkerPoint (HandlerPoint Response) → Option Nat
  | .handling _ _ p => Layer.holding held p
  | _ => none

/-- A call that has a connection where there are none, has what it
needs. -/
theorem Supplied.of_under {α ρ : Type} {x : ClientPools ρ} {c : Call}
    {k : c.Reply → Prog Call Call.Reply α} {p : ClientPoint}
    {l : HandlerPoint α} (hunder : pooledClients.Under c k p l)
    (hredis : Layer.holding redisConn l = none → x.1.queue ≠ [])
    (hdb : Layer.holding clientConn l = none → x.2.queue ≠ []) :
    Supplied x p := by
  cases p with
  | inl p =>
      rw [Implementation.Clean.under pooledClients_swap_clean hunder.swap]
        at hredis
      exact hredis
  | inr p =>
      rw [pooledClients_clean.under hunder] at hdb
      exact hdb

variable {ι ρ : Type} {beast : Beast}
  {handle : Request → Prog Call Call.Reply Response}
  {redis : Service RedisCommand RedisCommand.Reply ρ}
  {now : PooledWorkers ι ρ}

/-- The connection of a request is held by a thread. -/
theorem Handled.holding {msg : Nat × Nat → Str}
    {prog : Nat × Nat → Prog Call Call.Reply Response}
    {reqs : Requests (HandlerPoint Response) (ClientPools ρ)}
    (h : Handled (pooledApp beast handle) msg
      (fun request => .outside (prog request)) now reqs)
    (hasked : Asked (pooledApp beast handle) msg
      (fun request => .outside (prog request)) now.shared.1.connection)
    {held : ClientPoint → Option Nat} {request : Nat × Nat} {conn : Nat}
    (hheld : Layer.holding held (reqs.point request) = some conn) :
    ∃ i, (now.point i).holding held = some conn := by
  obtain ⟨c, k, p, hpoint, hconn⟩ := Layer.of_holding hheld
  have hbegun : reqs.point (request.1, request.2)
      ≠ .outside (prog (request.1, request.2)) := by
    rw [hpoint]
    nofun
  have hopen : (pooledApp beast handle).result (msg (request.1, request.2))
      (reqs.point (request.1, request.2)) = none := by
    rw [hpoint]
    rfl
  obtain ⟨i, hi⟩ := h.located hasked hbegun hopen
  refine ⟨i, ?_⟩
  rw [hi]
  exact hheld

/-- A thread between two calls of its handler has not ended the process. -/
theorem ServerAlive.proceeds [DecidableEq ι] (h : ServerAlive now)
    (beast : Beast) (handle : Request → Prog Call Call.Reply Response) (i : ι)
    (session : Nat) (requestMsg : Str) (shared : IoService × ClientPools ρ)
    (prog : Prog Call Call.Reply Response) :
    ServerAlive ⟨shared, Function.update now.point i
      ((pooledApp beast handle).proceed session requestMsg
        (.outside prog))⟩ := by
  intro j other msg q hj
  change Function.update now.point i _ j = _ at hj
  by_cases hji : j = i
  · subst hji
    rw [Function.update_self] at hj
    cases prog with
    | ret response => cases hj
    | call c k =>
        cases hj
        intro hexited
        obtain ⟨d, m, heq⟩ := hexited
        cases heq
  · rw [Function.update_of_ne hji] at hj
    exact h j other msg q hj

-- =================================================================== the supply

variable [DecidableEq ι] [Fintype ι] {buffer : Nat → Buffer}
  {redisPoolSize dbPoolSize : UInt64} {s : ρ} {table : UrlTable}
  {es : List (WorkerEvent ι ClientCall ClientCall.Reply)} {i : ι}
  {session : Nat} {requestMsg : Str}

/-- What the server has come to, with a connection of each kind for each
thread. -/
structure Ample (beast : Beast)
    (handle : Request → Prog Call Call.Reply Response)
    (redis : Service RedisCommand RedisCommand.Reply ρ)
    (redisPoolSize dbPoolSize : UInt64) (start now : PooledWorkers ι ρ) :
    Prop where
  alive : ServerAlive now
  db : Fintype.card ι ≤ dbPoolSize.toNat
  redis : ∃ es, Run (PooledWorkerStep beast handle redis) start es now
    ∧ Fintype.card ι + (es.filterMap WorkerEvent.app).countP RedisThrew
      ≤ redisPoolSize.toNat

/-- Redis still does not throw. -/
theorem Ample.steps {start next : PooledWorkers ι ρ}
    {as : List (Answer ClientCall ClientCall.Reply)}
    (h : Ample beast handle redis redisPoolSize dbPoolSize start now)
    (hrun : Run (PooledWorkerStep beast handle redis) now
      ((as.map Answer.ofApp).map fun a => (i, a)) next)
    (has : ∀ a ∈ as, RedisThrew a = false) (halive : ServerAlive next) :
    Ample beast handle redis redisPoolSize dbPoolSize start next := by
  obtain ⟨-, hdb, es, hbefore, hsize⟩ := h
  refine ⟨halive, hdb, _, hbefore.append hrun, ?_⟩
  have hcalls : (((as.map Answer.ofApp).map fun a => (i, a)).filterMap
      WorkerEvent.app) = as := by
    rw [List.map_map, List.filterMap_map]
    exact List.filterMap_some
  have hnone : as.countP RedisThrew = 0 := by
    rw [List.countP_eq_zero]
    intro a ha
    rw [has a ha]
    exact Bool.false_ne_true
  rw [List.filterMap_append, List.countP_append, hcalls, hnone]
  exact hsize

/-- A call that a thread is in has not returned, and there is a connection
for it. -/
theorem Ample.supplied
    (h : Ample beast handle redis redisPoolSize dbPoolSize
      (pooledServerStart buffer redisPoolSize dbPoolSize s table) now)
    {c : Call} {k : c.Reply → Prog Call Call.Reply Response}
    {p : ClientPoint} {l : HandlerPoint Response}
    (hi : now.point i = .handling session requestMsg l)
    (hunder : pooledClients.Under c k p l) :
    pooledClients.result c p = none ∧ Supplied now.shared.2 p
      ∧ ∃ o, c.Stands True p (now.shared.2.connStatus p) o := by
  obtain ⟨halive, hdb, es, hrun, hsize⟩ := h
  obtain ⟨gs, gs', reqsMid, reqs, hbefore, hafter, hcalls, hcalls', hend, -,
    hnow⟩ := server_pooled hrun (.nil now) halive
  have hreqs := hbefore.append hafter
  have hasked := asked_received beast handle now.shared.1.connection
  have hcount : (gs ++ gs').countP (fun e => RedisThrew e.2)
      = (es.filterMap WorkerEvent.app).countP RedisThrew := by
    have hall : (gs ++ gs').map Prod.snd
        = es.filterMap WorkerEvent.app := by
      rw [List.map_append, hcalls, hcalls']
      exact List.append_nil _
    rw [← hall, List.countP_map]
    rfl
  -- the queues have connections, because this thread holds none
  have hredisQueue : Layer.holding redisConn l = none →
      now.shared.2.1.queue ≠ [] := by
    intro hnone
    obtain ⟨hs, hledger, hdrops⟩ := redisLedger_run hreqs
    rw [← hnow.shared]
    have hfree : (now.point i).holding redisConn = none := by
      rw [hi]
      exact hnone
    refine Ledger.exists_queued List.nodup_range hledger
      (fun w => (now.point w).holding redisConn) ?_ hfree ?_
    · intro request conn hconn
      exact hnow.holding hasked hconn
    · rw [hdrops, hcount, List.length_range]
      exact hsize
  have hdbQueue : Layer.holding clientConn l = none →
      now.shared.2.2.queue ≠ [] := by
    intro hnone
    obtain ⟨hs, hledger, hkept⟩ := databaseLedger_run hreqs
    have hdrops : hs.countP (fun e => e.2 = .drop) = 0 := by
      rw [List.countP_eq_zero]
      intro e he
      rw [decide_eq_true_eq]
      exact hkept e he
    rw [← hnow.shared]
    have hfree : (now.point i).holding clientConn = none := by
      rw [hi]
      exact hnone
    refine Ledger.exists_queued List.nodup_range hledger
      (fun w => (now.point w).holding clientConn) ?_ hfree ?_
    · intro request conn hconn
      exact hnow.holding hasked hconn
    · rw [hdrops, List.length_range]
      exact hdb
  obtain ⟨hp, -⟩ := pooled_run hreqs hend (fun _ _ _ => trivial)
    (pooled_start True redisPoolSize dbPoolSize s table _)
  obtain ⟨j, hj⟩ := hnow.request hi
  rw [← hj] at hunder
  have hst := hp.under hunder
  rw [hnow.shared] at hst
  refine ⟨hp.opens hunder, ?_, hst⟩
  rw [hj] at hunder
  exact .of_under hunder hredisQueue hdbQueue

/-- And so it goes to its end by itself. -/
theorem Ample.call_ends (hredis : RedisAnswers redis)
    (h : Ample beast handle redis redisPoolSize dbPoolSize
      (pooledServerStart buffer redisPoolSize dbPoolSize s table) now)
    {c : Call} {k : c.Reply → Prog Call Call.Reply Response}
    {p : ClientPoint} {l : HandlerPoint Response}
    (hi : now.point i = .handling session requestMsg l)
    (hunder : pooledClients.Under c k p l) :
    ∃ as : List (Answer ClientCall ClientCall.Reply),
      ∃ x' : ClientPools ρ, ∃ r : c.Reply,
      Run (Solo (workerCode (pooledApp beast handle))
        (ServerServes (poolsServe redis)))
        (now.shared, now.point i) (as.map Answer.ofApp)
        ((now.shared.1, x'), (pooledApp beast handle).proceed session
          requestMsg (.outside (k r)))
      ∧ ∀ a ∈ as, RedisThrew a = false := by
  obtain ⟨hopen, hsupply, o, hst⟩ := h.supplied hi hunder
  obtain ⟨x', p', r, ⟨as, hrun, has⟩, hresult⟩ :=
    hst.ends hredis hopen hsupply
  have hne : as ≠ [] := by
    intro hnil
    subst hnil
    cases hrun
    rw [hopen] at hresult
    cases hresult
  have hlayered := Implementation.solo_layered
    (fun p r => pooledClients_ended c p r) hrun hne hunder
  rw [Implementation.settle_of_some hresult] at hlayered
  have hthread := (pooledApp_ends beast handle).handling now.shared.1 session
    requestMsg hlayered
  have hhandling : (pooledApp beast handle).proceed session requestMsg l
      = now.point i := by
    rw [hi]
    cases hunder <;> rfl
  rw [hhandling] at hthread
  exact ⟨as, x', r, hthread, has⟩

/-- A handler goes to its end by itself, by induction on what is left of
it. -/
theorem Ample.prog_ends (hredis : RedisAnswers redis) (requestMsg : Str)
    (prog : Prog Call Call.Reply Response) {now : PooledWorkers ι ρ}
    (h : Ample beast handle redis redisPoolSize dbPoolSize
      (pooledServerStart buffer redisPoolSize dbPoolSize s table) now)
    (hi : now.point i = (pooledApp beast handle).proceed session requestMsg
      (.outside prog)) :
    ∃ bs x' response, Run (Solo (workerCode (pooledApp beast handle))
        (ServerServes (poolsServe redis))) (now.shared, now.point i) bs
      ((now.shared.1, x'), .logging session response) := by
  induction prog generalizing now with
  | ret response =>
      refine ⟨[], now.shared.2, response.toString, ?_⟩
      rw [hi]
      exact .nil _
  | call c k ih =>
      have hunder : pooledClients.Under c k (pooledClients.enter c)
          (.outside (.call c k)) := .enter
      obtain ⟨as, x', r, hrun, has⟩ := h.call_ends hredis hi hunder
      have hthread := hrun.of_solo now.point i
      rw [Function.update_eq_self] at hthread
      have halive := h.alive.proceeds beast handle i session requestMsg
        (now.shared.1, x') (k r)
      obtain ⟨bs, x'', response, hrest⟩ := ih r
        (h.steps hthread has halive) (Function.update_self ..)
      simp only [Function.update_self] at hrest
      exact ⟨_, x'', response, hrun.append hrest⟩

/-- So does one that a thread is in the middle of. -/
theorem Ample.handler_ends (hredis : RedisAnswers redis)
    (h : Ample beast handle redis redisPoolSize dbPoolSize
      (pooledServerStart buffer redisPoolSize dbPoolSize s table) now)
    {p : HandlerPoint Response}
    (hi : now.point i = .handling session requestMsg p) :
    ∃ bs x' response, Run (Solo (workerCode (pooledApp beast handle))
        (ServerServes (poolsServe redis))) (now.shared, now.point i) bs
      ((now.shared.1, x'), .logging session response) := by
  cases p with
  | outside prog =>
      obtain ⟨es, hrun, -⟩ := h.redis
      refine h.prog_ends hredis requestMsg prog ?_
      rw [hi, App.proceed, handling_opens hrun hi]
  | inside c k q =>
      obtain ⟨as, x', r, hcall, has⟩ := h.call_ends hredis hi (.inside q)
      have hthread := hcall.of_solo now.point i
      rw [Function.update_eq_self] at hthread
      have halive := h.alive.proceeds beast handle i session requestMsg
        (now.shared.1, x') (k r)
      obtain ⟨bs, x'', response, hrest⟩ :=
        (h.steps hthread has halive).prog_ends hredis requestMsg (k r)
          (Function.update_self ..)
      simp only [Function.update_self] at hrest
      exact ⟨_, x'', response, hcall.append hrest⟩

/-- With as many connections of each kind as threads, and for Redis one
more for each time that redis++ has thrown, a thread that has a message
can send the response to it by itself, whatever the other threads hold:
it never needs one of them to go first. -/
theorem server_never_waits (hredis : RedisAnswers redis)
    (hdb : Fintype.card ι ≤ dbPoolSize.toNat)
    (hrun : Run (PooledWorkerStep beast handle redis)
      (pooledServerStart buffer redisPoolSize dbPoolSize s table) es now)
    (halive : ServerAlive now)
    (hsize : Fintype.card ι
      + (es.filterMap WorkerEvent.app).countP RedisThrew
        ≤ redisPoolSize.toNat)
    {p : HandlerPoint Response}
    (hi : now.point i = .handling session requestMsg p) :
    ∃ es' next responseMsg,
      Run (PooledWorkerStep beast handle redis) now es' next
      ∧ (∀ e ∈ es', e.1 = i)
      ∧ (next.shared.1.connection session).sent
        = (now.shared.1.connection session).sent ++ [responseMsg] := by
  have hample : Ample beast handle redis redisPoolSize dbPoolSize
      (pooledServerStart buffer redisPoolSize dbPoolSize s table) now :=
    ⟨halive, hdb, es, hrun, hsize⟩
  obtain ⟨bs, x', responseMsg, hends⟩ := hample.handler_ends hredis hi
  have hsends : Run (Solo (workerCode (pooledApp beast handle))
      (ServerServes (poolsServe redis)))
      ((now.shared.1, x'), .logging session responseMsg)
      [⟨.loggedEndpoint session, true⟩, ⟨.asyncWrite session responseMsg, ()⟩]
      (((now.shared.1.send session responseMsg).initiate
        (.write session responseMsg), x'), .finished false) :=
    .cons (.call rfl .loggedEndpoint) (.cons (.call rfl .asyncWrite) (.nil _))
  have hthread := (hends.append hsends).of_solo now.point i
  rw [Function.update_eq_self] at hthread
  refine ⟨_, _, responseMsg, hthread, ?_, ?_⟩
  · rw [List.forall_mem_map]
    exact fun _ _ => rfl
  · simp only [IoService.initiate, IoService.send, Function.update_self]

namespace ShortenRequestHandler

/-- A thread accepts a connection and reads the POST. -/
theorem link_read (i : Fin numThreads) :
    ∃ es, ∃ now : PooledWorkers (Fin numThreads) (Str → Option Str),
      Run (PooledWorkerStep reference colliding.handleRequest RedisMap)
        (pooledServerStart (fun _ => zeroBuffer) 2 2 (fun _ => none)
          (fun _ => none)) es now
      ∧ es.filterMap WorkerEvent.app = []
      ∧ ServerAlive now
      ∧ now.point i = .handling 0 linkPost
        (.outside (colliding.handleRequest linkPosted)) := by
  have hread : (pooledApp reference colliding.handleRequest).proceed 0
      linkPost (.outside (answering reference colliding.handleRequest
        linkPost))
      = .handling 0 linkPost
        (.outside (colliding.handleRequest linkPosted)) := by
    unfold answering
    rw [parse_linkPost]
    rfl
  have hsolo : ∃ as shared, Run (Solo
        (workerCode (pooledApp reference colliding.handleRequest))
        (ServerServes (poolsServe RedisMap)))
      (({ operations := [.accept 0], work := 1, made := 1
          buffer := fun _ => zeroBuffer, connection := fun _ => {} },
        redisConnectionPool 2 fun _ => none,
        ⟨List.range (2 : UInt64).toNat, ⟨fun _ => .idle, fun _ => none⟩⟩), .run)
      as (shared, (pooledApp reference colliding.handleRequest).proceed 0
        linkPost (.outside (answering reference colliding.handleRequest
          linkPost)))
      ∧ (as.map fun a => (i, a)).filterMap WorkerEvent.app = [] := by
    refine ⟨_, _, .cons (.call rfl (.reacted
        (@IoService.Reacts.accepted _ [] [] 0 true rfl)))
      (.cons (.call rfl (@ServerServes.handler _ _ _ _ _ _ [] [] _ rfl))
      (.cons (.call rfl (@ServerServes.acceptedEndpoint _ _ _ _ _ _ _ true))
      (.cons (.call rfl .asyncReadSome)
      (.cons (.call rfl .makeSession)
      (.cons (.call rfl .asyncAccept)
      (.cons (.call rfl .workFinished)
      (.cons (.call rfl (.reacted (@IoService.Reacts.read _ [] _ 0
        linkPost rfl (by decide) (by decide))))
      (.cons (.call rfl (@ServerServes.handler _ _ _ _ _ _ [] _ _ rfl))
      (.cons (.call rfl .data) (.nil _)))))))))), ?_⟩
    rfl
  obtain ⟨as, shared, hrun, hcalls⟩ := hsolo
  have hthread := hrun.of_solo (fun _ => .run) i
  rw [show Function.update (fun _ : Fin numThreads => WorkerPoint.run) i .run
    = fun _ => .run from Function.update_eq_self ..] at hthread
  have hstart : ServerAlive (ι := Fin numThreads)
      (pooledServerStart (fun _ => zeroBuffer) 2 2
        (fun _ : Str => (none : Option Str)) fun _ => none) := by
    intro j session requestMsg p hj
    cases hj
  refine ⟨_, _, hthread, hcalls, ?_, ?_⟩
  · exact hstart.proceeds reference colliding.handleRequest i 0 linkPost
      shared (answering reference colliding.handleRequest linkPost)
  · show Function.update (fun _ : Fin numThreads => WorkerPoint.run) i _ i = _
    rw [Function.update_self]
    exact hread

theorem server_never_waits_link :
    ∃ i, ∃ now : PooledWorkers (Fin numThreads) (Str → Option Str),
      now.point i = .handling 0 linkPost
        (.outside (colliding.handleRequest linkPosted))
      ∧ ∃ es' next responseMsg,
        Run (PooledWorkerStep reference colliding.handleRequest RedisMap)
          now es' next
        ∧ (∀ e ∈ es', e.1 = i)
        ∧ (next.shared.1.connection 0).sent
          = (now.shared.1.connection 0).sent ++ [responseMsg] := by
  obtain ⟨es, now, hrun, hcalls, halive, hi⟩ := link_read ⟨0, by decide⟩
  have hredis : RedisAnswers RedisMap :=
    ⟨fun _ _ => ⟨_, _, .get⟩, fun _ _ _ => ⟨_, .set⟩⟩
  have hsize : Fintype.card (Fin numThreads)
      + (es.filterMap WorkerEvent.app).countP RedisThrew
        ≤ (2 : UInt64).toNat := by
    rw [hcalls]
    decide
  exact ⟨_, now, hi,
    server_never_waits hredis (by decide) hrun halive hsize hi⟩

end ShortenRequestHandler

end Creeper
