/-
Who waits for ever.

A request waits while it needs a connection and the pool has none left.
The connections to the database all come back, whatever libpq does, so
there the wait is for the others. A connection to Redis is gone once a
command has thrown on it. `requests_return_or_wait` says that this is
all: as long as redis++ has thrown fewer times than there are
connections, each request can still return, from wherever the requests
have come to, and after that each one that needs Redis waits for ever.

To return, a request may need others to go first. One that holds a
connection can always go to the end of its call by itself
(`Call.Stands.ends`), and so the pools are emptied only for a time.
-/
import Creeper.Proofs.Pools.Realized

namespace Creeper

open Lib

-- ================================================================ the ledgers

/-- redis++ throws. -/
def RedisThrew : Answer ClientCall ClientCall.Reply → Bool
  | ⟨.inl c, r⟩ => PoolThrew ⟨c, r⟩
  | ⟨.inr _, _⟩ => false

/-- The connection of a call to Redis. -/
def redisConn : ClientPoint → Option Nat :=
  Sum.elim RedisPoint.conn fun _ => none

/-- The clients begin and return without a connection to Redis. -/
theorem pooledClients_swap_clean : pooledClients.swap.Clean redisConn := by
  constructor
  · intro c
    cases c <;> rfl
  · intro c p r hresult
    cases p with
    | inl p =>
        cases p with
        | got result => rfl
        | wasSet => rfl
        | _ => cases c <;> cases hresult
    | inr p => rfl

section

variable {ι α ρ : Type} [DecidableEq ι]
  {redis : Service RedisCommand RedisCommand.Reply ρ}
  {redisPoolSize dbPoolSize : UInt64} {s : ρ} {table : UrlTable}
  {handlers : ι → Prog Call Call.Reply α} {now next : PooledTraffic ι α ρ}
  {es : List (ClientEvent ι)}

/-- Where the connections to the database are. -/
def databaseLedger (now : PooledTraffic ι α ρ) : Ledger ι Nat :=
  ledger (Layer.holding clientConn) now.right

/-- Where those to Redis are. -/
def redisLedger (now : PooledTraffic ι α ρ) : Ledger ι Nat :=
  ledger (Layer.holding redisConn) now.swap.right

/-- The requests borrow from the Redis pool. -/
theorem requests_borrow_redis :
    Borrows (pooledClients.layered (α := α)).swap.right
      (Layer.holding redisConn) RedisCommand.throws := by
  rw [← Implementation.layered_swap]
  exact Implementation.borrows pooledClients_swap_clean
    (Sides.borrows_beside_left redis_borrows)

/-- A run is one of the ledger of the database. -/
theorem databaseLedger_run
    (h : Run (PooledStep redis)
      (pooledStart redisPoolSize dbPoolSize s table handlers) es now) :
    ∃ hs : List (ι × Handover),
      Run Ledger.Step (Ledger.full (List.range dbPoolSize.toNat)) hs
        (databaseLedger now)
      ∧ ∀ e ∈ hs, e.2 ≠ .drop := by
  have hfree := Implementation.freeLeft (α := α) pooledClients_clean
    Sides.freeLeft_beside
  refine ⟨_, Sides.ledger_run requests_borrow hfree
    (h.mono fun _ _ _ hstep => hstep.2), ?_⟩
  rw [List.forall_mem_map]
  intro e _
  obtain ⟨i, ⟨c | c, r⟩⟩ := e
  · nofun
  · cases c <;> nofun

/-- A connection to the database is always in some place. -/
theorem database_accounted
    (h : Run (PooledStep redis)
      (pooledStart redisPoolSize dbPoolSize s table handlers) es now) :
    Ledger.Accounted (List.range dbPoolSize.toNat) (databaseLedger now) := by
  obtain ⟨hs, hrun, hkept⟩ := databaseLedger_run h
  exact (Ledger.accounted_iff List.nodup_range hrun).mpr hkept

/-- A run is one of the ledger of Redis, where a connection is dropped
each time that redis++ throws. -/
theorem redisLedger_run
    (h : Run (PooledStep redis)
      (pooledStart redisPoolSize dbPoolSize s table handlers) es now) :
    ∃ hs : List (ι × Handover),
      Run Ledger.Step (Ledger.full (List.range redisPoolSize.toNat)) hs
        (redisLedger now)
      ∧ hs.countP (fun e => e.2 = .drop)
        = es.countP fun e => RedisThrew e.2 := by
  have hfree : Sides.FreeLeft (pooledClients.layered (α := α)).swap
      (Layer.holding redisConn) := by
    rw [← Implementation.layered_swap]
    exact Implementation.freeLeft pooledClients_swap_clean
      Sides.freeLeft_beside_left
  have hswap : Run (Move (pooledClients.layered (α := α)).swap _)
      (pooledStart redisPoolSize dbPoolSize s table handlers).swap
      (es.map fun e => (e.1, e.2.swap)) now.swap :=
    h.simulates fun _ _ _ hstep => hstep.2.swap
  refine ⟨_, Sides.ledger_run requests_borrow_redis hfree hswap, ?_⟩
  rw [List.map_map, List.countP_map]
  apply List.countP_congr
  intro e _
  obtain ⟨i, ⟨c | c, r⟩⟩ := e
  · cases c with
    | acquire => simp [Sides.handover, Answer.swap, handoverOf, RedisThrew,
        PoolThrew]
    | command conn c =>
        by_cases hthrows : RedisCommand.throws c r = true
        · simp [Sides.handover, Answer.swap, handoverOf, RedisThrew,
            PoolThrew, hthrows]
        · simp [Sides.handover, Answer.swap, handoverOf, RedisThrew,
            PoolThrew, hthrows]
    | release => simp [Sides.handover, Answer.swap, handoverOf, RedisThrew,
        PoolThrew]
  · simp [Sides.handover, Answer.swap, RedisThrew]

/-- There is a connection to Redis left just while redis++ has thrown
fewer times than there were. -/
theorem redis_left_iff
    (h : Run (PooledStep redis)
      (pooledStart redisPoolSize dbPoolSize s table handlers) es now) :
    (∃ conn, conn ∈ now.shared.1.queue
        ∨ ∃ i, Layer.holding redisConn (now.point i) = some conn)
      ↔ es.countP (fun e => RedisThrew e.2) < redisPoolSize.toNat := by
  obtain ⟨hs, hrun, hcount⟩ := redisLedger_run h
  have hleft := Ledger.left_iff List.nodup_range hrun
  rw [hcount, List.length_range] at hleft
  exact hleft

end

-- ==================================================== the end of a call

/-- Redis can always answer a command. -/
structure RedisAnswers {ρ : Type}
    (redis : Service RedisCommand RedisCommand.Reply ρ) : Prop where
  get : ∀ key s, ∃ result s', redis (.get key) s (some result) s'
  set : ∀ key value s, ∃ s', redis (.set key value) s (some ()) s'

section

variable {fails : Prop} {conn : Nat} {queue : List Nat} {pq : Libpq}
  {st : Option ConnStatus}

/-- A call to the database that has its result can fetch it. -/
theorem goes_fetch_answered (c : DatabaseCall) {result : c.Result}
    {res : PGresult} (hst : pq.status conn = .answered res) :
    ∃ pq' result', DatabaseGoes (fun _ => True)
      (⟨queue, pq⟩, .fetch conn c result)
      (⟨queue ++ [conn], pq'⟩, .returned c result') := by
  have hok : ∀ a, ¬ Failure a → True := fun _ _ => trivial
  cases hgo : (c.onResult res result).1 with
  | true => exact ⟨_, _, goes_fetch_on hok hst trivial hgo⟩
  | false => exact ⟨_, _, goes_fetch_out hok hst trivial hgo⟩

/-- A call that has a connection to the database can go to its end. -/
theorem DatabaseCall.Stands.ends {c : DatabaseCall} {p : DatabasePoint}
    {o : Option c.Result} (hst : c.Stands fails p (p.conn.map pq.status) o)
    (hconn : p.conn = some conn) (queue : List Nat) :
    ∃ pq' result, DatabaseGoes (fun _ => True) (⟨queue, pq⟩, p)
      (⟨queue ++ [conn], pq'⟩, .returned c result) := by
  have hok : ∀ a, ¬ Failure a → True := fun _ _ => trivial
  rw [hconn] at hst
  generalize hstatus : Option.map pq.status (some conn) = st at hst
  cases hst with
  | call => cases hconn
  | send =>
      cases hconn
      by_cases hidle : pq.status conn = .idle
      · exact ⟨_, _, goes_send hok hidle (c.execute_goes_on pq.table)⟩
      · exact ⟨_, _, .call rfl (.command .sendRefused) trivial
          (goes_release hok)⟩
  | @looping p result st o hp hawaits =>
      have hnow : pq.status conn = st := Option.some.inj hstatus
      -- what is done once the result is there
      have hfetch : (∀ query values, st ≠ .sent query values) →
          ∃ pq' result', DatabaseGoes (fun _ => True)
            (⟨queue, pq⟩, .fetch conn c result)
            (⟨queue ++ [conn], pq'⟩, .returned c result') := by
        intro hready
        cases hawaits with
        | sent => exact absurd rfl (hready _ _)
        | error => exact goes_fetch_answered c hnow
        | answered => exact goes_fetch_answered c hnow
        | lost => exact goes_fetch_answered c hnow
        | drained => exact ⟨_, _, goes_fetch_drained hok hnow⟩
      have hconsume : ∃ pq' result', DatabaseGoes (fun _ => True)
          (⟨queue, pq⟩, .consume conn c result)
          (⟨queue ++ [conn], pq'⟩, .returned c result') := by
        by_cases hready : ∀ query values, st ≠ .sent query values
        · obtain ⟨pq', result', hgoes⟩ := hfetch hready
          rw [← hnow] at hready
          exact ⟨pq', result', .call rfl (.command .consumed) trivial
            (goes_busy hok hready hgoes)⟩
        · cases hawaits with
          | sent =>
              exact ⟨_, _, goes_consume_sent hok hnow
                (c.execute_goes_on pq.table)⟩
          | _ => exact absurd nofun hready
      cases hp with
      | consume held =>
          cases hconn
          exact hconsume
      | busy held =>
          cases hconn
          obtain ⟨pq', result', hgoes⟩ := hconsume
          exact ⟨pq', result', .call rfl (.command .busy) trivial hgoes⟩
      | fetch held hready =>
          cases hconn
          exact hfetch hready
  | release =>
      cases hconn
      exact ⟨_, _, goes_release hok⟩
  | returned => cases hconn

/-- And so can one that has none, while the pool has one. -/
theorem DatabaseCall.Stands.ends_supplied {c : DatabaseCall}
    {p : DatabasePoint} {o : Option c.Result}
    (hst : c.Stands fails p (p.conn.map pq.status) o)
    (hopen : p.hasReturned = false) (hsupply : p.conn = none → queue ≠ []) :
    ∃ pool' result, DatabaseGoes (fun _ => True) (⟨queue, pq⟩, p)
      (pool', .returned c result) := by
  cases hconn : p.conn with
  | some conn =>
      obtain ⟨pq', result, hgoes⟩ := hst.ends hconn queue
      exact ⟨_, result, hgoes⟩
  | none =>
      obtain ⟨conn, rest, rfl⟩ :=
        List.exists_cons_of_ne_nil (hsupply hconn)
      rw [hconn] at hst
      generalize Option.map pq.status none = st at hst
      cases hst with
      | call =>
          have hsend : c.Stands fails (.send conn c)
              (some (pq.status conn)) none := .send
          obtain ⟨pq', result, hgoes⟩ := hsend.ends rfl rest
          exact ⟨_, result, .call rfl .acquire trivial hgoes⟩
      | send => cases hconn
      | looping hp => cases hp <;> cases hconn
      | release => cases hconn
      | returned => cases hopen

end

section

variable {ι α ρ : Type} {redis : Service RedisCommand RedisCommand.Reply ρ}
  {fails : Prop} {c : Call} {conn : Nat} {x : ClientPools ρ}

/-- A call can go from one point to another by itself, redis++ never
throwing. -/
abbrev ClientGoes (redis : Service RedisCommand RedisCommand.Reply ρ) :
    ClientPools ρ × ClientPoint → ClientPools ρ × ClientPoint → Prop :=
  Goes pooledClients.code (poolsServe redis) fun a => RedisThrew a = false

/-- A call that has a connection to Redis can go to its end, and gives it
back. -/
theorem Call.Stands.ends_redis (hredis : RedisAnswers redis) {p : RedisPoint}
    {st : Option ConnStatus} {o : Option c.Reply}
    (hst : c.Stands fails (.inl p) st o) (hconn : p.conn = some conn) :
    ∃ x' p' r, ClientGoes redis (x, .inl p) (x', p')
      ∧ pooledClients.result c p' = some r ∧ x'.1.queue ≠ [] := by
  obtain ⟨⟨queue, s⟩, y⟩ := x
  have hqueue : ∀ conn, queue ++ [conn] ≠ [] := fun conn =>
    List.append_ne_nil_of_right_ne_nil _ (List.cons_ne_nil _ _)
  have hok : ∀ a : Answer (PoolCall Nat RedisCommand)
      (PoolCall.Reply RedisCommand.Reply), PoolThrew a = false →
      RedisThrew a.left = false := fun _ h => h
  cases hst with
  | getCalled => cases hconn
  | @getting code held =>
      obtain ⟨result, s', hserves⟩ := hredis.get code s
      exact ⟨_, _, result, (goes_get hserves).onLeft hok y, rfl, hqueue held⟩
  | @getReleasing code held _ result =>
      exact ⟨_, _, result, goes_getRelease.onLeft hok y, rfl, hqueue held⟩
  | got => cases hconn
  | setCalled => cases hconn
  | @setting code url held =>
      obtain ⟨s', hserves⟩ := hredis.set code url s
      exact ⟨_, _, (), (goes_set hserves).onLeft hok y, rfl, hqueue held⟩
  | @setReleasing _ _ held =>
      exact ⟨_, _, (), goes_setRelease.onLeft hok y, rfl, hqueue held⟩
  | wasSet => cases hconn

/-- And so can one that has a connection to the database. -/
theorem Call.Stands.ends_database
    (redis : Service RedisCommand RedisCommand.Reply ρ) {p : DatabasePoint}
    {o : Option c.Reply}
    (hst : c.Stands fails (.inr p) (p.conn.map x.2.behind.status) o)
    (hconn : p.conn = some conn) :
    ∃ x' p' r, ClientGoes redis (x, .inr p) (x', p')
      ∧ pooledClients.result c p' = some r ∧ x'.2.queue ≠ [] := by
  obtain ⟨y, ⟨queue, pq⟩⟩ := x
  have hqueue : queue ++ [conn] ≠ [] :=
    List.append_ne_nil_of_right_ne_nil _ (List.cons_ne_nil _ _)
  have hok : ∀ a : Answer (PoolCall Nat PqCall) (PoolCall.Reply PqCall.Reply),
      True → RedisThrew a.right = false := fun _ _ => rfl
  cases hst with
  | lookup hst =>
      obtain ⟨pq', result, hgoes⟩ := hst.ends hconn queue
      exact ⟨_, _, result, hgoes.onRight hok y, rfl, hqueue⟩
  | store hst =>
      obtain ⟨pq', result, hgoes⟩ := hst.ends hconn queue
      exact ⟨_, _, result, hgoes.onRight hok y, rfl, hqueue⟩

/-- There is a connection, if the call has none. -/
def Supplied (x : ClientPools ρ) : ClientPoint → Prop
  | .inl p => p.conn = none → x.1.queue ≠ []
  | .inr p => p.conn = none → x.2.queue ≠ []

/-- A call that has a connection or can have one can go to its end. -/
theorem Call.Stands.ends (hredis : RedisAnswers redis) {p : ClientPoint}
    {o : Option c.Reply} (hst : c.Stands fails p (x.connStatus p) o)
    (hopen : pooledClients.result c p = none) (hsupply : Supplied x p) :
    ∃ x' p' r, ClientGoes redis (x, p) (x', p')
      ∧ pooledClients.result c p' = some r := by
  obtain ⟨⟨queue, s⟩, ⟨dbQueue, pq⟩⟩ := x
  have hheld : ∀ {x : ClientPools ρ} {p : RedisPoint} {conn : Nat}
      {o : Option c.Reply}, c.Stands fails (.inl p) none o →
      p.conn = some conn → ∃ x' p' r, ClientGoes redis (x, .inl p) (x', p')
        ∧ pooledClients.result c p' = some r := by
    intro x p conn o hst hconn
    obtain ⟨x', p', r, hgoes, hresult, -⟩ :=
      Call.Stands.ends_redis hredis hst hconn
    exact ⟨x', p', r, hgoes, hresult⟩
  have hok : ∀ a : Answer (PoolCall Nat PqCall) (PoolCall.Reply PqCall.Reply),
      True → RedisThrew a.right = false := fun _ _ => rfl
  cases hst with
  | @getCalled code st =>
      obtain ⟨conn, rest, rfl⟩ := List.exists_cons_of_ne_nil (hsupply rfl)
      obtain ⟨x', p', r, hgoes, hresult⟩ := hheld
        (x := (⟨rest, s⟩, ⟨dbQueue, pq⟩)) (@Call.Stands.getting _ code conn _)
        rfl
      exact ⟨x', p', r, .call rfl (.left .acquire) rfl hgoes, hresult⟩
  | getting => exact hheld .getting rfl
  | getReleasing => exact hheld .getReleasing rfl
  | got => cases hopen
  | @setCalled code url st =>
      obtain ⟨conn, rest, rfl⟩ := List.exists_cons_of_ne_nil (hsupply rfl)
      obtain ⟨x', p', r, hgoes, hresult⟩ := hheld
        (x := (⟨rest, s⟩, ⟨dbQueue, pq⟩))
        (@Call.Stands.setting _ code url conn _) rfl
      exact ⟨x', p', r, .call rfl (.left .acquire) rfl hgoes, hresult⟩
  | setting => exact hheld .setting rfl
  | setReleasing => exact hheld .setReleasing rfl
  | wasSet => cases hopen
  | @lookup code p st o hst =>
      have hgoing : p.hasReturned = false := by
        cases p with
        | returned c' result =>
            obtain ⟨rfl, -⟩ := hst.of_returned
            cases hopen
        | _ => rfl
      obtain ⟨pool', result, hgoes⟩ := hst.ends_supplied hgoing hsupply
      exact ⟨_, _, result, hgoes.onRight hok _, rfl⟩
  | @store code url p st o hst =>
      have hgoing : p.hasReturned = false := by
        cases p with
        | returned c' result =>
            obtain ⟨rfl, -⟩ := hst.of_returned
            cases hopen
        | _ => rfl
      obtain ⟨pool', result, hgoes⟩ := hst.ends_supplied hgoing hsupply
      exact ⟨_, _, result, hgoes.onRight hok _, rfl⟩

end

-- ================================================================ the requests

section

variable {ι α ρ : Type} [DecidableEq ι]
  {redis : Service RedisCommand RedisCommand.Reply ρ}
  {redisPoolSize dbPoolSize : UInt64} {s : ρ} {table : UrlTable}
  {handlers : ι → Prog Call Call.Reply α} {now next : PooledTraffic ι α ρ}
  {es : List (ClientEvent ι)}

/-- The requests can go from here to there, redis++ never throwing. -/
def Reaches (redis : Service RedisCommand RedisCommand.Reply ρ)
    (now next : PooledTraffic ι α ρ) : Prop :=
  ∃ es, Run (PooledStep redis) now es next
    ∧ ∀ e ∈ es, RedisThrew e.2 = false

theorem Reaches.refl (now : PooledTraffic ι α ρ) : Reaches redis now now :=
  ⟨[], .nil now, nofun⟩

theorem Reaches.trans {mid : PooledTraffic ι α ρ} (h : Reaches redis now mid)
    (h' : Reaches redis mid next) : Reaches redis now next := by
  obtain ⟨es, hrun, hes⟩ := h
  obtain ⟨es', hrun', hes'⟩ := h'
  exact ⟨es ++ es', hrun.append hrun', List.forall_mem_append.mpr ⟨hes, hes'⟩⟩

/-- Where the requests have come to while redis++ has thrown fewer times
than there are connections. -/
def Lively (redis : Service RedisCommand RedisCommand.Reply ρ)
    (redisPoolSize : UInt64) (start now : PooledTraffic ι α ρ) : Prop :=
  ProcessAlive now ∧ ∃ es, Run (PooledStep redis) start es now
    ∧ es.countP (fun e => RedisThrew e.2) < redisPoolSize.toNat

theorem Lively.reaches {start : PooledTraffic ι α ρ}
    (h : Lively redis redisPoolSize start now) (hreach : Reaches redis now next)
    (halive : ProcessAlive next) : Lively redis redisPoolSize start next := by
  obtain ⟨-, es, hrun, hcount⟩ := h
  obtain ⟨es', hrun', hes'⟩ := hreach
  refine ⟨halive, es ++ es', hrun.append hrun', ?_⟩
  have hzero : es'.countP (fun e => RedisThrew e.2) = 0 := by
    rw [List.countP_eq_zero]
    intro e he
    rw [hes' e he]
    exact Bool.false_ne_true
  rw [List.countP_append, hzero]
  exact hcount

/-- What is known of them. -/
theorem Lively.pooled
    (h : Lively redis redisPoolSize
      (pooledStart redisPoolSize dbPoolSize s table handlers) now) :
    Pooled True (List.range dbPoolSize.toNat) now := by
  obtain ⟨halive, es, hrun, -⟩ := h
  exact (pooled_run hrun halive (fun _ _ _ => trivial)
    (pooled_start True redisPoolSize dbPoolSize s table handlers)).1

omit [DecidableEq ι] in
/-- A call that is made has not returned. -/
theorem Pooled.opens {fails : Prop} {conns : List Nat}
    (hp : Pooled fails conns now) {i : ι} {c : Call}
    {k : c.Reply → Prog Call Call.Reply α} {p : ClientPoint}
    (hunder : pooledClients.Under c k p (now.point i)) :
    pooledClients.result c p = none := by
  generalize hpoint : now.point i = l at hunder
  cases hunder with
  | enter => exact pooledClients_opens c
  | inside p => exact (hp.stands hpoint).1

/-- A request that holds a connection is in a call. -/
theorem Layer.of_holding {held : ClientPoint → Option Nat}
    {l : HandlerPoint α} {conn : Nat} (h : Layer.holding held l = some conn) :
    ∃ c k p, l = .inside c k p ∧ held p = some conn := by
  cases l with
  | outside prog => cases h
  | inside c k p => exact ⟨c, k, p, rfl, h⟩

/-- The call of one request goes to its end, and the others wait. -/
theorem Reaches.of_goes {fails : Prop} {conns : List Nat}
    (hp : Pooled fails conns now) {j : ι} {c : Call}
    {k : c.Reply → Prog Call Call.Reply α} {p p' : ClientPoint}
    {x' : ClientPools ρ} {r : c.Reply}
    (hunder : pooledClients.Under c k p (now.point j))
    (hgoes : ClientGoes redis (now.shared, p) (x', p'))
    (hresult : pooledClients.result c p' = some r) :
    ∃ next, Reaches redis now next ∧ ProcessAlive next ∧ next.shared = x'
      ∧ next.point j = .outside (k r)
      ∧ ∀ i, i ≠ j → next.point i = now.point i := by
  obtain ⟨es, hrun, hes, hnext⟩ :=
    pooled_of_goes hp.alive hunder (hp.opens hunder) hresult hgoes
  refine ⟨_, ⟨es, hrun, hes⟩, hnext, rfl, Function.update_self .., ?_⟩
  intro i hij
  exact Function.update_of_ne hij ..

/-- Another request that holds a connection to Redis goes first. -/
theorem frees_redis (hredis : RedisAnswers redis)
    (hlively : Lively redis redisPoolSize
      (pooledStart redisPoolSize dbPoolSize s table handlers) now) {i : ι}
    (hi : Layer.holding redisConn (now.point i) = none) :
    ∃ mid, Reaches redis now mid ∧ ProcessAlive mid
      ∧ mid.point i = now.point i ∧ mid.shared.1.queue ≠ [] := by
  have hp := hlively.pooled
  obtain ⟨halive, es, hrun, hcount⟩ := hlively
  obtain ⟨conn, hqueued | ⟨j, hj⟩⟩ := (redis_left_iff hrun).mpr hcount
  · exact ⟨now, .refl now, halive, rfl, List.ne_nil_of_mem hqueued⟩
  · obtain ⟨c, k, p, hpoint, hconn⟩ := Layer.of_holding hj
    obtain ⟨-, o, hst⟩ := hp.stands hpoint
    cases p with
    | inr p => cases hconn
    | inl p =>
        obtain ⟨x', p', r, hgoes, hresult, hqueue⟩ :=
          hst.ends_redis (x := now.shared) hredis hconn
        have hunder : pooledClients.Under c k (.inl p) (now.point j) := by
          rw [hpoint]
          exact .inside _
        obtain ⟨mid, hreach, hmid, hshared, -, hothers⟩ :=
          Reaches.of_goes hp hunder hgoes hresult
        refine ⟨mid, hreach, hmid, hothers i ?_, by rw [hshared]; exact hqueue⟩
        intro heq
        subst heq
        rw [hi] at hj
        cases hj

/-- Another request that holds a connection to the database goes
first. -/
theorem frees_database (hdb : 0 < dbPoolSize)
    (hlively : Lively redis redisPoolSize
      (pooledStart redisPoolSize dbPoolSize s table handlers) now) {i : ι}
    (hi : Layer.holding clientConn (now.point i) = none) :
    ∃ mid, Reaches redis now mid ∧ ProcessAlive mid
      ∧ mid.point i = now.point i ∧ mid.shared.2.queue ≠ [] := by
  have hp := hlively.pooled
  obtain ⟨halive, es, hrun, hcount⟩ := hlively
  have hzero : 0 ∈ List.range dbPoolSize.toNat :=
    List.mem_range.mpr (UInt64.lt_iff_toNat_lt.mp hdb)
  rcases database_accounted hrun 0 hzero with hqueued | ⟨j, hj⟩
  · exact ⟨now, .refl now, halive, rfl, List.ne_nil_of_mem hqueued⟩
  · obtain ⟨c, k, p, hpoint, hconn⟩ := Layer.of_holding hj
    have hpoint : now.point j = .inside c k p := hpoint
    obtain ⟨-, o, hst⟩ := hp.stands hpoint
    cases p with
    | inl p => cases hconn
    | inr p =>
        obtain ⟨x', p', r, hgoes, hresult, hqueue⟩ :=
          hst.ends_database redis hconn
        have hunder : pooledClients.Under c k (.inr p) (now.point j) := by
          rw [hpoint]
          exact .inside _
        obtain ⟨mid, hreach, hmid, hshared, -, hothers⟩ :=
          Reaches.of_goes hp hunder hgoes hresult
        refine ⟨mid, hreach, hmid, hothers i ?_, by rw [hshared]; exact hqueue⟩
        intro heq
        subst heq
        have hsome : Layer.holding clientConn (now.point i) = some 0 := hj
        rw [hi] at hsome
        cases hsome

/-- There can be a connection for the call of a request. -/
theorem supplies (hredis : RedisAnswers redis) (hdb : 0 < dbPoolSize)
    (hlively : Lively redis redisPoolSize
      (pooledStart redisPoolSize dbPoolSize s table handlers) now) {i : ι}
    {c : Call} {k : c.Reply → Prog Call Call.Reply α} {p : ClientPoint}
    (hunder : pooledClients.Under c k p (now.point i)) :
    ∃ mid, Reaches redis now mid ∧ ProcessAlive mid
      ∧ mid.point i = now.point i ∧ Supplied mid.shared p := by
  cases p with
  | inl p =>
      cases hconn : p.conn with
      | some conn =>
          refine ⟨now, .refl now, hlively.1, rfl, fun hnone => ?_⟩
          rw [hconn] at hnone
          cases hnone
      | none =>
          have hi : Layer.holding redisConn (now.point i) = none := by
            rw [Implementation.Clean.under pooledClients_swap_clean hunder.swap]
            exact hconn
          obtain ⟨mid, hreach, hmid, hsame, hqueue⟩ :=
            frees_redis hredis hlively hi
          exact ⟨mid, hreach, hmid, hsame, fun _ => hqueue⟩
  | inr p =>
      cases hconn : p.conn with
      | some conn =>
          refine ⟨now, .refl now, hlively.1, rfl, fun hnone => ?_⟩
          rw [hconn] at hnone
          cases hnone
      | none =>
          have hi : Layer.holding clientConn (now.point i) = none := by
            rw [pooledClients_clean.under hunder]
            exact hconn
          obtain ⟨mid, hreach, hmid, hsame, hqueue⟩ :=
            frees_database hdb hlively hi
          exact ⟨mid, hreach, hmid, hsame, fun _ => hqueue⟩

/-- A call that is made can return. -/
theorem call_returns (hredis : RedisAnswers redis) (hdb : 0 < dbPoolSize)
    (hlively : Lively redis redisPoolSize
      (pooledStart redisPoolSize dbPoolSize s table handlers) now) {i : ι}
    {c : Call} {k : c.Reply → Prog Call Call.Reply α} {p : ClientPoint}
    (hunder : pooledClients.Under c k p (now.point i)) :
    ∃ next r, Reaches redis now next ∧ ProcessAlive next
      ∧ next.point i = .outside (k r) := by
  obtain ⟨mid, hreach, halive, hsame, hsupply⟩ :=
    supplies hredis hdb hlively hunder
  have hp := (hlively.reaches hreach halive).pooled
  rw [← hsame] at hunder
  obtain ⟨o, hst⟩ := hp.under hunder
  obtain ⟨x', p', r, hgoes, hresult⟩ :=
    hst.ends hredis (hp.opens hunder) hsupply
  obtain ⟨next, hreach', hnext, -, hpoint, -⟩ :=
    Reaches.of_goes hp hunder hgoes hresult
  exact ⟨next, r, hreach.trans hreach', hnext, hpoint⟩

/-- A request between two calls can return, by induction on what is left
of it. -/
theorem prog_returns (hredis : RedisAnswers redis) (hdb : 0 < dbPoolSize)
    (prog : Prog Call Call.Reply α) {now : PooledTraffic ι α ρ}
    (hlively : Lively redis redisPoolSize
      (pooledStart redisPoolSize dbPoolSize s table handlers) now) {i : ι}
    (hi : now.point i = .outside prog) :
    ∃ next a, Reaches redis now next ∧ next.point i = .outside (.ret a) := by
  induction prog generalizing now with
  | ret a => exact ⟨now, a, .refl now, hi⟩
  | call c k ih =>
      have hunder : pooledClients.Under c k (pooledClients.enter c)
          (now.point i) := by
        rw [hi]
        exact .enter
      obtain ⟨mid, r, hreach, halive, hmid⟩ :=
        call_returns hredis hdb hlively hunder
      obtain ⟨next, a, hreach', hnext⟩ :=
        ih r (hlively.reaches hreach halive) hmid
      exact ⟨next, a, hreach.trans hreach', hnext⟩

/-- Every request can return. -/
theorem Lively.returns (hredis : RedisAnswers redis) (hdb : 0 < dbPoolSize)
    (hlively : Lively redis redisPoolSize
      (pooledStart redisPoolSize dbPoolSize s table handlers) now) (i : ι) :
    ∃ next a, Reaches redis now next ∧ next.point i = .outside (.ret a) := by
  cases hi : now.point i with
  | outside prog => exact prog_returns hredis hdb prog hlively hi
  | inside c k p =>
      have hunder : pooledClients.Under c k p (now.point i) := by
        rw [hi]
        exact .inside p
      obtain ⟨mid, r, hreach, halive, hmid⟩ :=
        call_returns hredis hdb hlively hunder
      obtain ⟨next, a, hreach', hnext⟩ := prog_returns hredis hdb (k r)
        (hlively.reaches hreach halive) hmid
      exact ⟨next, a, hreach.trans hreach', hnext⟩

-- ================================================================ the wait

/-- The next thing the request does is to take a connection to Redis. -/
def WaitsForRedis (l : HandlerPoint α) : Prop :=
  ∃ k, pooledClients.layered l = some ⟨.inl .acquire, k⟩

/-- Once redis++ has thrown as often as there are connections, it waits
for ever. -/
theorem waits_for_ever
    (hrun : Run (PooledStep redis)
      (pooledStart redisPoolSize dbPoolSize s table handlers) es now)
    (hcount : redisPoolSize.toNat ≤ es.countP fun e => RedisThrew e.2) {i : ι}
    (hwaits : WaitsForRedis (now.point i)) {es' : List (ClientEvent ι)}
    (h : Run (PooledStep redis) now es' next) :
    next.point i = now.point i := by
  induction h generalizing es with
  | nil => rfl
  | @cons now mid next e es' hstep _ ih =>
      have hempty : now.shared.1.queue = [] := by
        apply List.eq_nil_iff_forall_not_mem.mpr
        intro conn hconn
        have hlt := (redis_left_iff hrun).mp ⟨conn, Or.inl hconn⟩
        omega
      have hsame : mid.point i = now.point i := by
        obtain ⟨k, hcode⟩ := hwaits
        obtain ⟨j, c, k', r, -, hcode', hserves, -, hother⟩ := hstep.2.inv
        by_cases hij : i = j
        · subst hij
          rw [hcode] at hcode'
          cases hcode'
          obtain ⟨⟨⟨queue, t⟩, y⟩, point⟩ := now
          generalize mid.shared = after at hserves
          cases hserves with
          | left hleft =>
              cases hleft with
              | acquire => cases hempty
        · exact hother i hij
      rw [← hsame] at hwaits
      have hrun' := hrun.append (.cons hstep (.nil mid))
      rw [ih hrun' (by rw [List.countP_append]; omega) hwaits, hsame]

/-- As long as redis++ has thrown fewer times than there are connections,
every request can still return; after that, whichever needs a connection
to Redis waits for ever. -/
theorem requests_return_or_wait (hredis : RedisAnswers redis)
    (hdb : 0 < dbPoolSize)
    (hrun : Run (PooledStep redis)
      (pooledStart redisPoolSize dbPoolSize s table handlers) es now)
    (halive : ProcessAlive now) :
    (es.countP (fun e => RedisThrew e.2) < redisPoolSize.toNat
      ∧ ∀ i, ∃ es' next a, Run (PooledStep redis) now es' next
        ∧ next.point i = .outside (.ret a))
    ∨ (redisPoolSize.toNat ≤ es.countP (fun e => RedisThrew e.2)
      ∧ ∀ i, WaitsForRedis (now.point i) → ∀ es' next,
        Run (PooledStep redis) now es' next →
        next.point i = now.point i) := by
  rcases Nat.lt_or_ge (es.countP fun e => RedisThrew e.2)
    redisPoolSize.toNat with hcount | hcount
  · left
    refine ⟨hcount, fun i => ?_⟩
    obtain ⟨next, a, ⟨es', hrun', -⟩, hnext⟩ :=
      Lively.returns hredis hdb ⟨halive, es, hrun, hcount⟩ i
    exact ⟨es', next, a, hrun', hnext⟩
  · right
    exact ⟨hcount, fun i hwaits es' next h =>
      waits_for_ever hrun hcount hwaits h⟩

end

/-- Two requests and one connection to Redis: when the first `get` throws,
the second waits for ever. -/
theorem requests_return_or_wait_two :
    ∃ es now, Run (PooledStep RedisMap)
        (pooledStart 1 1 (fun _ => none) (fun _ => none) fun _ : Bool =>
          .call (.redisGet "0000aZ".toList) .ret) es now
      ∧ now.point false = .outside (.ret none)
      ∧ ∀ es' next, Run (PooledStep RedisMap) now es' next →
        next.point true = now.point true := by
  have hthere : ∃ es now, Run (Move pooledClients.layered (poolsServe RedisMap))
        (pooledStart 1 1 (fun _ => none) (fun _ => none) fun _ : Bool =>
          .call (.redisGet "0000aZ".toList) .ret) es now
      ∧ ProcessAlive now ∧ now.point false = .outside (.ret none)
      ∧ 1 ≤ es.countP (fun e => RedisThrew e.2)
      ∧ WaitsForRedis (now.point true) := by
    refine ⟨_, _, .cons (.call (i := false) rfl (.left .acquire))
      (.cons (.call (i := false) rfl (.left (.command .getThrew))) (.nil _)),
      ?_, rfl, Nat.le_refl 1, ⟨_, rfl⟩⟩
    intro i hexited
    obtain ⟨c, k, hi⟩ := hexited
    cases i <;> cases hi
  obtain ⟨es, now, hmoves, halive, hreturned, hthrew, hwaits⟩ := hthere
  have hrun := (pooled_of_run hmoves halive).2
  refine ⟨es, now, hrun, hreturned, ?_⟩
  have hredis : RedisAnswers RedisMap :=
    ⟨fun _ _ => ⟨_, _, .get⟩, fun _ _ _ => ⟨_, .set⟩⟩
  rcases requests_return_or_wait hredis (by decide) hrun halive with
    hlively | ⟨-, hwait⟩
  · exact absurd hlively.1 (Nat.not_lt.mpr hthrew)
  · exact hwait true hwaits

end Creeper
