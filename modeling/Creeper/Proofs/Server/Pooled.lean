/-
The server over the pools, and its requests over the pools.

`server_answers` takes the threads apart from what they work on.
`server_pooled` says what is left of the server then: the requests that
the messages of its connections are, over the two pools, where the
process is alive if no thread has ended it.
-/
import Creeper.PooledServer
import Creeper.Proofs.Pools.Clients
import Creeper.Proofs.Server.Requests

namespace Creeper

open Lib

variable {ι ρ : Type} {beast : Beast}
  {handle : Request → Prog Call Call.Reply Response}
  {connection : Nat → Connection}
  {redis : Service RedisCommand RedisCommand.Reply ρ}

-- =============================================================== the requests

/-- The program of a message, if it has come in. -/
def receivedProg (beast : Beast)
    (handle : Request → Prog Call Call.Reply Response)
    (connection : Nat → Connection) (request : Nat × Nat) :
    Prog Call Call.Reply Response :=
  if request.2 < (connection request.1).received.length then
    answering beast handle (requestOf connection request)
  else .ret (stockResponse .c400)

/-- These are the messages of the connections. -/
theorem asked_received (beast : Beast)
    (handle : Request → Prog Call Call.Reply Response)
    (connection : Nat → Connection) :
    Asked (pooledApp beast handle) (requestOf connection)
      (fun request => .outside (receivedProg beast handle connection request))
      connection := by
  intro session j requestMsg hj
  have hin := (List.getElem?_eq_some_iff.mp hj).1
  obtain ⟨hmsg, -⟩ :=
    asked_requestOf (pooledApp beast handle) connection session j _ hj
  refine ⟨hmsg, ?_⟩
  have hprog : receivedProg beast handle connection (session, j)
      = answering beast handle requestMsg := by
    rw [← hmsg]
    exact if_pos hin
  exact congrArg Layer.outside hprog

-- ==================================================================== the runs

/-- Where no thread has ended the process, no request has. -/
theorem Handled.alive {now : PooledWorkers ι ρ}
    {reqs : Requests (HandlerPoint Response) (ClientPools ρ)}
    {prog : Nat × Nat → Prog Call Call.Reply Response}
    {msg : Nat × Nat → Str}
    (h : Handled (pooledApp beast handle) msg
      (fun request => .outside (prog request)) now reqs)
    (hasked : Asked (pooledApp beast handle) msg
      (fun request => .outside (prog request)) now.shared.1.connection)
    (halive : ServerAlive now) : ProcessAlive reqs := by
  intro request hexited
  obtain ⟨c, k, hpoint⟩ := hexited
  have hbegun : reqs.point (request.1, request.2)
      ≠ .outside (prog (request.1, request.2)) := by
    rw [hpoint]
    nofun
  have hopen : (pooledApp beast handle).result
      (msg (request.1, request.2)) (reqs.point (request.1, request.2))
        = none := by
    rw [hpoint]
    rfl
  obtain ⟨i, hi⟩ := h.located hasked hbegun hopen
  exact halive i _ _ _ hi ⟨c, k, hpoint⟩

variable [DecidableEq ι] {buffer : Nat → Buffer}
  {redisPoolSize dbPoolSize : UInt64} {s : ρ} {table : UrlTable}
  {mid now : PooledWorkers ι ρ}
  {es es' : List (WorkerEvent ι ClientCall ClientCall.Reply)}

/-- What the server over the pools does, its requests do over the pools,
also between two points of its run. -/
theorem server_pooled
    (hbefore : Run (PooledWorkerStep beast handle redis)
      (pooledServerStart buffer redisPoolSize dbPoolSize s table) es mid)
    (hafter : Run (PooledWorkerStep beast handle redis) mid es' now)
    (halive : ServerAlive now) :
    ∃ gs gs' reqsMid reqs,
      Run (PooledStep redis) (pooledStart redisPoolSize dbPoolSize s table
        (receivedProg beast handle now.shared.1.connection)) gs reqsMid
      ∧ Run (PooledStep redis) reqsMid gs' reqs
      ∧ gs.map Prod.snd = es.filterMap WorkerEvent.app
      ∧ gs'.map Prod.snd = es'.filterMap WorkerEvent.app
      ∧ ProcessAlive reqs
      ∧ Handled (pooledApp beast handle)
        (requestOf now.shared.1.connection)
        (fun request => .outside
          (receivedProg beast handle now.shared.1.connection request))
        mid reqsMid
      ∧ Handled (pooledApp beast handle)
        (requestOf now.shared.1.connection)
        (fun request => .outside
          (receivedProg beast handle now.shared.1.connection request))
        now reqs := by
  have hasked := asked_received beast handle now.shared.1.connection
  obtain ⟨gs, gs', reqsMid, reqs, hrun, hrun', hcalls, hcalls', hmid, hnow⟩ :=
    server_requests hbefore hafter hasked
  have hend := hnow.alive hasked halive
  obtain ⟨haliveMid, hsteps'⟩ := pooled_of_run hrun' hend
  obtain ⟨-, hsteps⟩ := pooled_of_run hrun haliveMid
  exact ⟨gs, gs', reqsMid, reqs, hsteps, hsteps', hcalls, hcalls', hend, hmid,
    hnow⟩

end Creeper
