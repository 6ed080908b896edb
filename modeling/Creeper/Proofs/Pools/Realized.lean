/-
What the stores can do, the pools can do.

`clients_atomic` says that requests over the pools end as requests over
the stores do. Here is the other way round: where both pools have a
connection, every run over the stores that does not fail is one over the
pools, a call after the other by itself. So nothing is lost in looking at
the stores only, and `clients_exact` is both ways at once: without
failures, what requests over the pools can have done when all are between
two calls is exactly what requests over the stores can have done.
-/
import Creeper.Proofs.Pools.Alone
import Creeper.Proofs.Pools.Clients

namespace Creeper

open Lib

-- ============================================================= the database

/-- A query that is executed leaves the loop going. -/
theorem DatabaseCall.execute_goes_on (c : DatabaseCall) (table : UrlTable) :
    (c.onResult (c.execute table).2 c.failure).1 = true := by
  cases c with
  | store shortCode longUrl => rfl
  | lookup shortCode =>
      rw [DatabaseCall.execute_lookup]
      cases table (cString shortCode) <;> rfl

/-- A table that does not fail executes the query. -/
theorem TableServes.executed {c : DatabaseCall} {t t' : UrlTable}
    {r : c.Result} (h : TableServes False c t r t') :
    r = (c.onResult (c.execute t).2 c.failure).2 ∧ t' = (c.execute t).1 := by
  cases h with
  | stored => exact ⟨rfl, rfl⟩
  | @found code t =>
      rw [DatabaseCall.execute_lookup]
      cases t (cString code) <;> exact ⟨rfl, rfl⟩
  | unreported h => exact h.elim
  | failed h => exact h.elim

/-- A call by itself, over a pool whose connections are idle. -/
theorem database_goes (c : DatabaseCall) (conn : Nat) (rest : List Nat)
    {pq : Libpq} (hidle : ∀ conn, pq.status conn = .idle) :
    ∃ pq', DatabaseGoes (fun a => ¬ Failure a) (⟨conn :: rest, pq⟩, .call c)
        (⟨rest ++ [conn], pq'⟩,
          .returned c (c.onResult (c.execute pq.table).2 c.failure).2)
      ∧ (∀ conn, pq'.status conn = .idle)
      ∧ pq'.table = (c.execute pq.table).1 := by
  refine ⟨_, .call rfl .acquire id (goes_send (fun _ h => h) (hidle conn)
    (c.execute_goes_on pq.table)), ?_, rfl⟩
  intro other
  by_cases hother : other = conn
  · subst hother
    exact Libpq.status_setStatus _ _ _
  · simp only [Libpq.emptied, Libpq.executed, Libpq.setStatus,
      Function.update_of_ne hother]
    exact hidle other

-- ============================================================== a call at once

section

variable {ι α ρ : Type} {redis : Service RedisCommand RedisCommand.Reply ρ}

/-- redis++ never throws. -/
def NeverThrows (redis : Service RedisCommand RedisCommand.Reply ρ) : Prop :=
  ∀ c s reply s', redis c s reply s' → RedisCommand.throws c reply = false

/-- Redis, where it does not throw. -/
def Answering (redis : Service RedisCommand RedisCommand.Reply ρ) :
    Service RedisCommand RedisCommand.Reply ρ :=
  Service.Only (fun a => RedisCommand.throws a.1 a.2 = false) redis

theorem neverThrows_answering
    (redis : Service RedisCommand RedisCommand.Reply ρ) :
    NeverThrows (Answering redis) :=
  fun _ _ _ _ h => h.1

/-- Pools over it are pools over Redis. -/
theorem serves_of_answering {c : ClientCall} {x x' : ClientPools ρ}
    {r : c.Reply} (h : poolsServe (Answering redis) c x r x') :
    poolsServe redis c x r x' := by
  cases h with
  | right h => exact .right h
  | left h =>
      cases h with
      | acquire => exact .left .acquire
      | release => exact .left .release
      | command hserves => exact .left (.command hserves.2)

/-- Each pool has a connection, and those to the database are idle. -/
structure Ready (x : ClientPools ρ) : Prop where
  redis : x.1.queue ≠ []
  database : x.2.queue ≠ []
  idle : ∀ conn, x.2.behind.status conn = .idle

/-- A step of the stores, as a call of a client by itself. -/
theorem goes_of_serves (hredis : NeverThrows redis) {c : Call}
    {t : ρ × UrlTable} {r : c.Reply} {x : ClientPools ρ} (hready : Ready x)
    (h : StoresServe redis False c x.stores r t) :
    ∃ x' p, Goes pooledClients.code (poolsServe redis)
        (fun a => ¬ ClientFailure a) (x, pooledClients.enter c) (x', p)
      ∧ pooledClients.result c p = some r ∧ ClientPools.stores x' = t
      ∧ Ready x' := by
  obtain ⟨⟨queue, s⟩, ⟨dbQueue, pq⟩⟩ := x
  obtain ⟨hqueue, hdbQueue, hidle⟩ := hready
  obtain ⟨conn, rest, rfl⟩ := List.exists_cons_of_ne_nil hqueue
  obtain ⟨dbConn, dbRest, rfl⟩ := List.exists_cons_of_ne_nil hdbQueue
  have hrest : ∀ s : ρ, Ready (⟨⟨rest ++ [conn], s⟩,
      ⟨dbConn :: dbRest, pq⟩⟩ : ClientPools ρ) := fun s =>
    ⟨List.append_ne_nil_of_right_ne_nil _ (List.cons_ne_nil _ _),
      List.cons_ne_nil _ _, hidle⟩
  have hdbRest : ∀ pq' : Libpq, (∀ conn, pq'.status conn = .idle) →
      Ready (⟨⟨conn :: rest, s⟩, ⟨dbRest ++ [dbConn], pq'⟩⟩ :
        ClientPools ρ) := fun pq' hidle' =>
    ⟨List.cons_ne_nil _ _,
      List.append_ne_nil_of_right_ne_nil _ (List.cons_ne_nil _ _), hidle'⟩
  cases h with
  | @got code _ s' _ reply hserves =>
      cases reply with
      | none => cases hredis _ _ _ _ hserves
      | some result =>
          have hgoes : RedisGoes redis (⟨conn :: rest, s⟩, .call (.get code))
              (⟨rest ++ [conn], s'⟩, .got result) :=
            .call rfl .acquire rfl (goes_get hserves)
          exact ⟨_, _, hgoes.onLeft (fun _ _ => id) _, rfl, rfl, hrest s'⟩
  | @wasSet code url _ s' _ hserves =>
      have hgoes : RedisGoes redis (⟨conn :: rest, s⟩, .call (.set code url))
          (⟨rest ++ [conn], s'⟩, .wasSet) :=
        .call rfl .acquire rfl (goes_set hserves)
      exact ⟨_, _, hgoes.onLeft (fun _ _ => id) _, rfl, rfl, hrest s'⟩
  | @lookedUp code _ _ t' result hserves =>
      obtain ⟨rfl, rfl⟩ := hserves.executed
      obtain ⟨pq', hgoes, hidle', htable⟩ :=
        database_goes (.lookup code) dbConn dbRest hidle
      refine ⟨_, _, hgoes.onRight (fun _ ha => ha) _, rfl, ?_,
        hdbRest pq' hidle'⟩
      exact congrArg (Prod.mk s) htable
  | @stored code url _ _ t' success hserves =>
      obtain ⟨rfl, rfl⟩ := hserves.executed
      obtain ⟨pq', hgoes, hidle', htable⟩ :=
        database_goes (.store code url) dbConn dbRest hidle
      refine ⟨_, _, hgoes.onRight (fun _ ha => ha) _, rfl, ?_,
        hdbRest pq' hidle'⟩
      exact congrArg (Prod.mk s) htable

-- =================================================================== the runs

/-- A call that begins has not returned. -/
theorem pooledClients_opens (c : Call) :
    pooledClients.result c (pooledClients.enter c) = none := by
  cases c <;> rfl

/-- Requests between their calls, over pools and over stores. -/
structure Paused (now : PooledTraffic ι α ρ)
    (abs : Programs ι Call Call.Reply α (ρ × UrlTable)) : Prop where
  stores : now.shared.stores = abs.shared
  point : ∀ i, now.point i = .outside (abs.point i)
  ready : Ready now.shared

/-- Nothing has ended the process while all are between their calls. -/
theorem Paused.alive {now : PooledTraffic ι α ρ}
    {abs : Programs ι Call Call.Reply α (ρ × UrlTable)}
    (h : Paused now abs) : ProcessAlive now := by
  intro i hexited
  obtain ⟨c, k, hi⟩ := hexited
  rw [h.point i] at hi
  cases hi

variable [DecidableEq ι]

/-- A step over the stores is a call over the pools. -/
theorem Paused.step (hredis : NeverThrows redis)
    {now : PooledTraffic ι α ρ}
    {abs abs' : Programs ι Call Call.Reply α (ρ × UrlTable)}
    {e : ι × Answer Call Call.Reply} (h : Paused now abs)
    (hmove : Move Prog.code (StoresServe redis False) abs e abs') :
    ∃ es next, Run (PooledStep redis) now es next
      ∧ (∀ e ∈ es, ¬ ClientFailure e.2) ∧ Paused next abs' := by
  obtain ⟨i, c, k, r, -, hcall, hserves, hpoint, hother⟩ := hmove.program
  rw [← h.stores] at hserves
  obtain ⟨x', p, hgoes, hresult, hstores, hready⟩ :=
    goes_of_serves hredis h.ready hserves
  have hunder : pooledClients.Under c k (pooledClients.enter c)
      (now.point i) := by
    rw [h.point i, hcall]
    exact .enter
  obtain ⟨es, hrun, hok, -⟩ := pooled_of_goes h.alive hunder
    (pooledClients_opens c) hresult hgoes
  refine ⟨es, _, hrun, hok, hstores, fun j => ?_, hready⟩
  show Function.update now.point i _ j = _
  by_cases hj : j = i
  · subst hj
    rw [Function.update_self, hpoint]
  · rw [Function.update_of_ne hj, hother j hj]
    exact h.point j

/-- A run over the stores is a run over the pools. -/
theorem Paused.run (hredis : NeverThrows redis) {now : PooledTraffic ι α ρ}
    {abs abs' : Programs ι Call Call.Reply α (ρ × UrlTable)}
    {fs : List (ι × Answer Call Call.Reply)}
    (hrun : Run (Move Prog.code (StoresServe redis False)) abs fs abs')
    (h : Paused now abs) :
    ∃ es next, Run (PooledStep redis) now es next
      ∧ (∀ e ∈ es, ¬ ClientFailure e.2) ∧ Paused next abs' := by
  induction hrun generalizing now with
  | nil => exact ⟨[], now, .nil now, nofun, h⟩
  | cons hmove _ ih =>
      obtain ⟨es, mid, hfirst, hok, hmid⟩ := h.step hredis hmove
      obtain ⟨es', next, hrest, hok', hnext⟩ := ih hmid
      exact ⟨es ++ es', next, hfirst.append hrest,
        List.forall_mem_append.mpr ⟨hok, hok'⟩, hnext⟩

omit [DecidableEq ι] in
/-- Pools that have been made with connections are ready. -/
theorem paused_start {redisPoolSize dbPoolSize : UInt64} (s : ρ)
    (table : UrlTable) (handlers : ι → Prog Call Call.Reply α)
    (hredis : 0 < redisPoolSize) (hdb : 0 < dbPoolSize) :
    Paused (pooledStart redisPoolSize dbPoolSize s table handlers)
      ⟨(s, table), handlers⟩ := by
  have hqueue : ∀ n : UInt64, 0 < n → List.range n.toNat ≠ [] := by
    intro n hn hnil
    have hzero := List.range_eq_nil.mp hnil
    have hpos : 0 < n.toNat := UInt64.lt_iff_toNat_lt.mp hn
    omega
  exact ⟨rfl, fun _ => rfl, hqueue _ hredis, hqueue _ hdb, fun _ => rfl⟩

/-- Where no client fails and no pool is empty, the stores and programs
that requests over the pools come to when all are between two calls are
those that requests over the stores come to. -/
theorem clients_exact (hredis : NeverThrows redis)
    {redisPoolSize dbPoolSize : UInt64} (hredisPool : 0 < redisPoolSize)
    (hdbPool : 0 < dbPoolSize) (s : ρ) (table : UrlTable)
    (handlers progs : ι → Prog Call Call.Reply α) (stores : ρ × UrlTable) :
    (∃ es now, Run (PooledStep redis)
        (pooledStart redisPoolSize dbPoolSize s table handlers) es now
      ∧ (∀ e ∈ es, ¬ ClientFailure e.2) ∧ now.shared.stores = stores
      ∧ ∀ i, now.point i = .outside (progs i))
    ↔ ∃ fs, Run (Move Prog.code (StoresServe redis False))
      ⟨(s, table), handlers⟩ fs ⟨stores, progs⟩ := by
  constructor
  · intro hpooled
    obtain ⟨es, now, hrun, hfine, rfl, hpoint⟩ := hpooled
    have halive : ProcessAlive now := by
      intro i hexited
      obtain ⟨c, k, hi⟩ := hexited
      rw [hpoint i] at hi
      cases hi
    obtain ⟨fs, abs, hruns, hagrees⟩ := clients_run hrun hfine halive
    obtain ⟨shared, point⟩ := abs
    have hprogs : point = progs :=
      funext fun i => hagrees.point i (progs i) (hpoint i)
    have hshared : shared = now.shared.stores := hagrees.stores
    subst hprogs hshared
    exact ⟨fs, hruns⟩
  · intro hstores
    obtain ⟨fs, hrun⟩ := hstores
    obtain ⟨es, now, hrun, hfine, hnow⟩ := Paused.run hredis hrun
      (paused_start s table handlers hredisPool hdbPool)
    exact ⟨es, now, hrun, hfine, hnow.stores, hnow.point⟩

end

theorem clients_exact_two :
    ∃ es, ∃ now : PooledTraffic Bool (Option Str) (Str → Option Str),
      Run (PooledStep (Answering RedisMap))
        (pooledStart 1 1 (fun _ => some "a".toList) (fun _ => none)
          fun _ : Bool => .call (.redisGet "0000aZ".toList) .ret) es now
      ∧ (∀ e ∈ es, ¬ ClientFailure e.2)
      ∧ now.shared.stores = (fun _ => some "a".toList, fun _ => none)
      ∧ ∀ i, now.point i = .outside (.ret (some "a".toList)) := by
  refine (clients_exact (neverThrows_answering RedisMap) (by decide)
    (by decide) _ _ _ (fun _ => .ret (some "a".toList)) _).mpr ?_
  have hgot : StoresServe (Answering RedisMap) False
      (.redisGet "0000aZ".toList)
      (fun _ => some "a".toList, fun _ => none)
      (some (some "a".toList)).join
      (fun _ => some "a".toList, fun _ => none) := .got ⟨rfl, .get⟩
  let handler : Prog Call Call.Reply (Option Str) :=
    .call (.redisGet "0000aZ".toList) .ret
  have hpoint : (fun _ : Bool => .ret (some "a".toList))
      = Function.update (Function.update (fun _ : Bool => handler) false
        (.ret (some "a".toList))) true (.ret (some "a".toList)) := by
    funext i
    cases i <;> rfl
  rw [hpoint]
  exact ⟨_, .cons (.call (i := false) rfl hgot)
    (.cons (.call (i := true) rfl hgot) (.nil _))⟩

end Creeper
