/-
The clients over their pools, as stores.

A handler is written as if each call to a client were one step. It is
not: a store and a lookup are a loop over libpq, and any number of them
run at once over the connections of a pool. `clients_atomic` says that
the handlers cannot tell. Whatever the pools, the connections and the
failures do, the requests end as they would end over two plain stores
(`StoresServe`), where a call is one step on a map, or fails, or is
executed without being acknowledged. And they do so on the way: what has
returned by some point of the run has made its calls by then, and what
has not begun makes them after.

A call's connection is nobody else's, so what a call knows of it
(`Call.Stands`) is not touched by the others; this is the custody of the
pool again, with the Redis client at its side.
-/
import Creeper.Proofs.Pools.Calls

namespace Creeper

open Lib

-- ================================================================ the clients

/-- The clients begin and return without a connection. -/
theorem pooledClients_clean : pooledClients.Clean clientConn := by
  constructor
  · intro c
    cases c <;> rfl
  · intro c p r hresult
    cases p with
    | inl p => rfl
    | inr p =>
        cases p with
        | returned c' result => rfl
        | _ => cases c <;> cases hresult

/-- A call that begins is still to be served. -/
theorem pooledClients_enter {fails : Prop} {st : Option ConnStatus} (c : Call)
    (o : Option c.Reply) :
    c.Stands fails (pooledClients.enter c) st o ↔ o = none := by
  constructor
  · intro h
    cases c with
    | redisGet code =>
        cases h
        rfl
    | redisSet code url =>
        cases h
        rfl
    | dbLookup code =>
        cases h with
        | lookup h => exact DatabaseCall.stands_call_iff.mp h
    | dbStore code url =>
        cases h with
        | store h => exact DatabaseCall.stands_call_iff.mp h
  · intro h
    subst h
    cases c with
    | redisGet code => exact .getCalled
    | redisSet code url => exact .setCalled
    | dbLookup code => exact .lookup .call
    | dbStore code url => exact .store .call

/-- What a call returns is what it has been served with. -/
theorem pooledClients_result {fails : Prop} {c : Call} {p : ClientPoint}
    {st : Option ConnStatus} {o : Option c.Reply}
    (hst : c.Stands fails p st o) {r : c.Reply}
    (h : pooledClients.result c p = some r) : o = some r := by
  cases hst with
  | getCalled => cases h
  | getting => cases h
  | getReleasing => cases h
  | got =>
      cases h
      rfl
  | setCalled => cases h
  | setting => cases h
  | setReleasing => cases h
  | wasSet => rfl
  | @lookup code p st o hst =>
      cases p with
      | returned c' result =>
          cases c' with
          | lookup code' =>
              cases h
              obtain ⟨heq, ho⟩ := hst.of_returned
              cases heq
              exact ho
          | store code' url' => cases h
      | _ => cases h
  | @store code url p st o hst =>
      cases p with
      | returned c' result =>
          cases c' with
          | store code' url' =>
              cases h
              obtain ⟨heq, ho⟩ := hst.of_returned
              cases heq
              exact ho
          | lookup code' => cases h
      | _ => cases h

-- ================================================================== a step

section

variable {ι α ρ : Type} {redis : Service RedisCommand RedisCommand.Reply ρ}
  {fails : Prop}

/-- libpq fails on a call. -/
def ClientFailure : Answer ClientCall ClientCall.Reply → Prop
  | ⟨.inl _, _⟩ => False
  | ⟨.inr c, r⟩ => Failure ⟨c, r⟩

/-- What the clients call, where libpq fails only if it may. -/
def poolServices (redis : Service RedisCommand RedisCommand.Reply ρ)
    (fails : Prop) : Service ClientCall ClientCall.Reply (ClientPools ρ) :=
  Service.Only (fun a => ClientFailure a → fails) (poolsServe redis)

/-- The stores behind the pools. -/
def ClientPools.stores (s : ClientPools ρ) : ρ × UrlTable :=
  (s.1.behind, s.2.behind.table)

/-- The status of the connection of a call. -/
def ClientPools.connStatus (s : ClientPools ρ) (p : ClientPoint) :
    Option ConnStatus :=
  (clientConn p).map s.2.behind.status

/-- A step of a call that stands. -/
theorem Call.Carries.pooled {c : Call} {p : ClientPoint} {c' : ClientCall}
    {next : c'.Reply → ClientPoint} {r : c'.Reply} {s s' : ClientPools ρ}
    (hst : ∃ o, c.Stands fails p (s.connStatus p) o)
    (hcode : pooledClients.code p = some ⟨c', next⟩)
    (h : poolServices redis fails c' s r s') :
    c.Carries redis fails p (s.connStatus p) s.stores (next r)
      (s'.connStatus (next r)) s'.stores := by
  obtain ⟨hok, hserves⟩ := h
  rcases Code.beside_inv hcode with
    ⟨p, c₁, k, rfl, hown, heq⟩ | ⟨p, c₂, k, rfl, hown, heq⟩
  · cases heq
    cases hserves with
    | left hleft => exact .onRedis _ hst hown hleft
  · cases heq
    cases hserves with
    | right hright => exact .onDatabase redis _ hst hown hok hright

-- ============================================================== what is kept

/-- A call under way has not returned, and stands somehow, unless it has
ended the process. -/
def StandsSomehow (fails : Prop) (_ : ι) (l : HandlerPoint α)
    (st : Option ConnStatus) (_ : Unit) : Prop :=
  ∀ c k p, l = .inside c k p → pooledClients.result c p = none
    ∧ (p = .inl .exited ∨ ∃ o, c.Stands fails p st o)

theorem StandsSomehow.settle {i : ι} {c : Call}
    {k : c.Reply → Prog Call Call.Reply α} {p : ClientPoint}
    {st : Option ConnStatus}
    (h : p = .inl .exited ∨ ∃ o, c.Stands fails p st o) :
    StandsSomehow fails i (pooledClients.settle c k p) st () := by
  intro d m q heq
  cases hresult : pooledClients.result c p with
  | some r =>
      rw [Implementation.settle_of_some hresult] at heq
      cases heq
  | none =>
      rw [Implementation.settle_of_none hresult] at heq
      cases heq
      exact ⟨hresult, h⟩

theorem StandsSomehow.under {i : ι} {c : Call}
    {k : c.Reply → Prog Call Call.Reply α} {p : ClientPoint}
    {l : HandlerPoint α} {st : Option ConnStatus} {c' : ClientCall}
    {next : c'.Reply → ClientPoint} (h : StandsSomehow fails i l st ())
    (hunder : pooledClients.Under c k p l)
    (hcode : pooledClients.code p = some ⟨c', next⟩) :
    ∃ o, c.Stands fails p st o := by
  cases hunder with
  | enter => exact ⟨none, (pooledClients_enter c none).mpr rfl⟩
  | inside p =>
      rcases (h c k p rfl).2 with rfl | hst
      · cases hcode
      · exact hst

/-- The call of a request that uses the database. -/
theorem StandsSomehow.database {i : ι} {l : HandlerPoint α}
    {st : Option ConnStatus} {c' : PoolCall Nat PqCall}
    {next : PoolCall.Reply PqCall.Reply c' → HandlerPoint α}
    (h : StandsSomehow fails i l st ())
    (hcode : pooledClients.layered.right l = some ⟨c', next⟩) :
    ∃ (c : Call) (m : c.Reply → Prog Call Call.Reply α) (p : DatabasePoint)
      (k : PoolCall.Reply PqCall.Reply c' → DatabasePoint),
      (∃ o, c.Stands fails (.inr p) st o)
      ∧ RealDatabaseClient.code p = some ⟨c', k⟩
      ∧ next = fun r => pooledClients.settle c m (.inr (k r)) := by
  obtain ⟨c, m, p, next, hunder, hown, rfl⟩ :=
    Implementation.layered_inv (Code.right_eq_some_iff.mp hcode)
  have hst := h.under hunder hown
  obtain ⟨p, k, rfl, hdb, rfl⟩ :=
    Code.right_beside_inv (Code.right_eq_some_iff.mpr hown)
  exact ⟨c, m, p, k, hst, hdb, rfl⟩

/-- A request keeps what it knows of its connection. -/
theorem stands_rule (fails : Prop) :
    Custody.Rule (pooledClients.layered (α := α)).right
      (Layer.holding clientConn) Libpq.Serves Libpq.status (fun _ => ())
      (fun e => Failure e.2 → fails) (fun _ _ _ => True)
      (StandsSomehow (ι := ι) fails) := by
  refine ⟨libpq_frame, ?_, ?_, ?_, ?_⟩
  · intro i l next conn st _ hcode hl _
    obtain ⟨c, m, p, k, hst, hdb, rfl⟩ := hl.database hcode
    obtain ⟨hconn, hafter⟩ := postgres_borrows.acquire p k hdb
    -- a pool that has only this connection
    have hpool : Pool.Serves Libpq.Serves .acquire
        ⟨[conn], ⟨fun _ => st, fun _ => none⟩⟩ conn
        ⟨[], ⟨fun _ => st, fun _ => none⟩⟩ := .acquire
    have hcarries := Call.Carries.onDatabase (fun _ _ _ _ => False) ()
      (by rw [hconn]; exact hst) hdb False.elim hpool
    apply StandsSomehow.settle
    have hst' := hcarries.1
    rw [hafter conn] at hst'
    exact hst'
  · intro i l conn cmd next pq r pq' hcode hok hserves hl
    obtain ⟨c, m, p, k, hst, hdb, rfl⟩ := hl.database hcode
    obtain ⟨hconn, -⟩ := postgres_borrows.command p conn cmd k hdb
    have hpool : Pool.Serves Libpq.Serves (.command conn cmd) ⟨[], pq⟩ r
        ⟨[], pq'⟩ := .command hserves
    have hcarries := Call.Carries.onDatabase (fun _ _ _ _ => False) ()
      (by rw [hconn]; exact hst) hdb hok hpool
    show StandsSomehow _ _ _
      ((Layer.holding _ (pooledClients.settle c m _)).map pq'.status) ()
    rw [pooledClients_clean.settle]
    exact .settle hcarries.1
  · intro i l conn cmd next pq r pq' _ _ _ _
    exact ⟨fun _ _ _ => trivial, fun _ _ _ _ h => h⟩
  · intro i l conn next st _ hcode hl
    obtain ⟨c, m, p, k, hst, hdb, rfl⟩ := hl.database hcode
    obtain ⟨hconn, hafter⟩ := postgres_borrows.release p conn k hdb
    have hpool : Pool.Serves Libpq.Serves (.release conn)
        ⟨[], ⟨fun _ => st, fun _ => none⟩⟩ ()
        ⟨[conn], ⟨fun _ => st, fun _ => none⟩⟩ := .release
    have hcarries := Call.Carries.onDatabase (fun _ _ _ _ => False) ()
      (by rw [hconn]; exact hst) hdb False.elim hpool
    refine ⟨StandsSomehow.settle ?_, trivial⟩
    have hst' := hcarries.1
    rw [hafter] at hst'
    exact hst'

/-- A call to Redis changes nothing of it, whatever it is answered. -/
theorem StandsSomehow.left {i : ι} {l : HandlerPoint α}
    {c' : PoolCall Nat RedisCommand}
    {next : PoolCall.Reply RedisCommand.Reply c' → HandlerPoint α}
    (hcode : pooledClients.layered l = some ⟨.inl c', next⟩)
    (h : StandsSomehow fails i l none ())
    (r : PoolCall.Reply RedisCommand.Reply c') :
    StandsSomehow fails i (next r) none () := by
  obtain ⟨c, m, p, next, hunder, hown, rfl⟩ := Implementation.layered_inv hcode
  have hst := h.under hunder hown
  rcases Code.beside_inv hown with
    ⟨p, c₁, k, rfl, hredis, heq⟩ | ⟨p, c₂, k, rfl, -, heq⟩
  · cases heq
    -- a Redis that answers just this
    have hserves : ∃ pool pool' : Pool Nat Unit,
        Pool.Serves (fun _ => fun _ _ _ _ => True) c' pool r pool' := by
      cases c' with
      | acquire => exact ⟨⟨[r], ()⟩, ⟨[], ()⟩, .acquire⟩
      | command conn cmd => exact ⟨⟨[], ()⟩, ⟨[], ()⟩, .command trivial⟩
      | release conn => exact ⟨⟨[], ()⟩, ⟨[conn], ()⟩, .release⟩
    obtain ⟨pool, pool', hserves⟩ := hserves
    have hcarries := Call.Carries.onRedis (fun _ => none) hst hredis hserves
    exact .settle hcarries.1
  · cases heq

/-- What is known of the requests as long as the process runs. -/
structure Pooled (fails : Prop) (conns : List Nat)
    (now : PooledTraffic ι α ρ) : Prop where
  alive : ProcessAlive now
  sound : Ledger.Sound conns (ledger (Layer.holding clientConn) now.right)
  custody : Custody (Layer.holding clientConn) Libpq.status (fun _ => ())
    (fun _ _ _ => True) (StandsSomehow fails) now.right

variable [DecidableEq ι] {conns : List Nat} {now next : PooledTraffic ι α ρ}
  {e : ClientEvent ι}

/-- The requests borrow from the database pool. -/
theorem requests_borrow :
    Borrows (pooledClients.layered (α := α)).right (Layer.holding clientConn)
      fun _ _ => false :=
  Implementation.borrows pooledClients_clean
    (Sides.borrows_beside postgres_borrows)

/-- A step keeps what is known. -/
theorem PooledStep.pooled (h : PooledStep redis now e next)
    (halive : ProcessAlive next) (hfails : ClientFailure e.2 → fails)
    (hp : Pooled fails conns now) : Pooled fails conns next := by
  have hfree := Implementation.freeLeft (α := α) pooledClients_clean
    Sides.freeLeft_beside
  refine ⟨halive,
    (Sides.ledger_move requests_borrow hfree h.2).sound hp.sound, ?_⟩
  refine Sides.custody_move requests_borrow hfree (stands_rule fails) ?_ hp.sound
    hp.custody ?_ h.2
  · intro i l c k r _ hcode hl
    exact hl.left hcode r
  · intro c r heq hfailure
    apply hfails
    rw [heq]
    exact hfailure

omit [DecidableEq ι] in
/-- A call under way has not returned, and stands in some way. -/
theorem Pooled.stands (hp : Pooled fails conns now) {i : ι} {c : Call}
    {k : c.Reply → Prog Call Call.Reply α} {p : ClientPoint}
    (hi : now.point i = .inside c k p) :
    pooledClients.result c p = none
      ∧ ∃ o, c.Stands fails p (now.shared.connStatus p) o := by
  have hkept := hp.custody.kept i
  have hpoint : now.right.point i = .inside c k p := hi
  rw [hpoint] at hkept
  obtain ⟨hopen, rfl | hst⟩ := hkept c k p rfl
  · exact absurd ⟨c, k, hi⟩ (hp.alive i)
  · exact ⟨hopen, hst⟩

omit [DecidableEq ι] in
theorem Pooled.under (hp : Pooled fails conns now) {i : ι} {c : Call}
    {k : c.Reply → Prog Call Call.Reply α} {p : ClientPoint}
    (hunder : pooledClients.Under c k p (now.point i)) :
    ∃ o, c.Stands fails p (now.shared.connStatus p) o := by
  generalize hpoint : now.point i = l at hunder
  cases hunder with
  | enter => exact ⟨none, (pooledClients_enter c none).mpr rfl⟩
  | inside p => exact (hp.stands hpoint).2

/-- The calls of the clients are steps of the stores. -/
theorem clients_step (redis : Service RedisCommand RedisCommand.Reply ρ)
    (fails : Prop) (conns : List Nat) :
    pooledClients.Atomic (ι := ι) (α := α) (poolServices redis fails)
      (StoresServe redis fails) ClientPools.stores (Pooled fails conns)
      (fun c p s o => c.Stands fails p (s.connStatus p) o) where
  enter := fun c s o h => (pooledClients_enter c o).mp h
  stands := fun now hp i c k p hi => (hp.stands hi).2
  own := by
    intro now hp i c k p hunder c' next r s' hown hserves
    exact (Call.Carries.pooled (hp.under hunder) hown hserves).2
  result := by
    intro now hp i c k p hunder c' next r s' hown hserves a hresult
    have hcarries := Call.Carries.pooled (hp.under hunder) hown hserves
    rcases hcarries.1 with hexited | ⟨o', ho'⟩
    · rw [hexited] at hresult
      cases c <;> cases hresult
    · obtain rfl := pooledClients_result ho' hresult
      exact ho'
  others := by
    intro now hp i c k p hunder c' next r s' hown hserves j hj d m q hq o ho
    obtain ⟨-, hserves⟩ := hserves
    have hsame : s'.connStatus q = now.shared.connStatus q := by
      obtain ⟨⟨t, pool⟩, point⟩ := now
      cases hserves with
      | left => rfl
      | right hright =>
          cases hright with
          | acquire => rfl
          | release => rfl
          | @command conn cmd r queue pq pq' hcommand =>
              have hcode := hunder.layered
              simp only [Implementation.within, hown, Option.map_some] at hcode
              obtain ⟨hconn, -⟩ := requests_borrow.command _ _ _ _
                (Code.right_eq_some_iff.mpr hcode)
              have hothers := (stands_rule fails).others hp.sound
                hcommand hconn hj
              change (Layer.holding clientConn (point j)).map pq'.status
                = (Layer.holding clientConn (point j)).map pq.status at hothers
              rw [show point j = .inside d m q from hq] at hothers
              exact hothers
    rw [hsame] at ho
    exact ho

-- =================================================================== the runs

/-- A run that ends with the process alive has never lost it. -/
theorem alive_of_run {es : List (ClientEvent ι)}
    (h : Run (PooledStep redis) now es next) (halive : ProcessAlive next) :
    ProcessAlive now := by
  cases h with
  | nil => exact halive
  | cons hstep => exact hstep.1

/-- A call of the pools that has ended for good. -/
theorem alive_of_move
    (h : Move pooledClients.layered (poolsServe redis) now e next)
    (halive : ProcessAlive next) :
    ProcessAlive now := by
  intro i hexited
  apply halive i
  obtain ⟨c, k, hi⟩ := hexited
  have hend : pooledClients.layered (now.point i) = none := by
    rw [hi]
    rfl
  rw [h.ended hend]
  exact ⟨c, k, hi⟩

/-- Moves that leave the process alive are steps of it. -/
theorem pooled_of_run
    (h : Run (Move pooledClients.layered (poolsServe redis)) now es next)
    (halive : ProcessAlive next) :
    ProcessAlive now ∧ Run (PooledStep redis) now es next := by
  induction h with
  | nil => exact ⟨halive, .nil _⟩
  | cons hmove _ ih =>
      obtain ⟨hmid, hrun⟩ := ih halive
      have hnow := alive_of_move hmove hmid
      exact ⟨hnow, .cons ⟨hnow, hmove⟩ hrun⟩

/-- A run over the pools, with what is known at every step of it. -/
theorem pooled_run {es : List (ClientEvent ι)}
    (h : Run (PooledStep redis) now es next) (halive : ProcessAlive next)
    (hfails : ∀ e ∈ es, ClientFailure e.2 → fails)
    (hp : Pooled fails conns now) :
    Pooled fails conns next
      ∧ Run (fun s e t => Pooled fails conns s
        ∧ Move pooledClients.layered (poolServices redis fails) s e t)
        now es next := by
  induction h with
  | nil => exact ⟨hp, .nil _⟩
  | @cons now mid next e es hstep hrun ih =>
      obtain ⟨hfirst, hrest⟩ := List.forall_mem_cons.mp hfails
      have hmid := hstep.pooled (alive_of_run hrun halive) hfirst hp
      obtain ⟨hnext, hrun⟩ := ih halive hrest hmid
      exact ⟨hnext, .cons ⟨hp, hstep.2.only hfirst⟩ hrun⟩

omit [DecidableEq ι] in
/-- Nothing is under way at the start. -/
theorem pooled_start (fails : Prop) (redisPoolSize dbPoolSize : UInt64)
    (s : ρ) (table : UrlTable) (handlers : ι → Prog Call Call.Reply α) :
    Pooled fails (List.range dbPoolSize.toNat)
      (pooledStart redisPoolSize dbPoolSize s table handlers) := by
  refine ⟨?_, Ledger.sound_full List.nodup_range, ?_, ?_⟩
  · intro i hexited
    obtain ⟨c, k, heq⟩ := hexited
    cases heq
  · exact fun _ _ => trivial
  · intro i c k p heq
    cases heq

/-- What the requests over the pools and the requests over the stores
have in common: the stores, and each request that is between two
calls. -/
structure Agrees (now : PooledTraffic ι α ρ)
    (abs : Programs ι Call Call.Reply α (ρ × UrlTable)) : Prop where
  stores : abs.shared = now.shared.stores
  point : ∀ i prog, now.point i = .outside prog → abs.point i = prog

/-- The requests over the stores stand where those over the pools do. -/
abbrev Alongside (fails : Prop) (now : PooledTraffic ι α ρ)
    (abs : Programs ι Call Call.Reply α (ρ × UrlTable)) : Prop :=
  Implementation.Atomic.Related ClientPools.stores
    (fun c p s o => c.Stands fails p (s.connStatus p) o) now abs

omit [DecidableEq ι] in
theorem Agrees.of_alongside
    {abs : Programs ι Call Call.Reply α (ρ × UrlTable)}
    (h : Alongside fails now abs) : Agrees now abs := by
  refine ⟨h.shared, fun i prog hi => ?_⟩
  have hmatch := h.point i
  rw [hi] at hmatch
  generalize abs.point i = q at hmatch ⊢
  cases hmatch with
  | outside prog => rfl

omit [DecidableEq ι] in
/-- They have nothing behind them at the start. -/
theorem Alongside.eq_start {redisPoolSize dbPoolSize : UInt64} {s : ρ}
    {table : UrlTable} {handlers : ι → Prog Call Call.Reply α}
    {abs : Programs ι Call Call.Reply α (ρ × UrlTable)}
    (h : Alongside fails
      (pooledStart redisPoolSize dbPoolSize s table handlers) abs) :
    abs = ⟨(s, table), handlers⟩ := by
  have hagrees := Agrees.of_alongside h
  obtain ⟨shared, point⟩ := abs
  have hpoint : point = handlers :=
    funext fun i => hagrees.point i (handlers i) rfl
  rw [hpoint]
  exact congrArg (Running.mk · handlers) hagrees.stores

/-- Wherever the requests over the stores have to end, there is a run of
them that ends there. -/
theorem Alongside.before {es : List (ClientEvent ι)}
    {abs' : Programs ι Call Call.Reply α (ρ × UrlTable)}
    (h : Alongside fails next abs') (hp : Pooled fails conns now)
    (hrun : Run (PooledStep redis) now es next) (halive : ProcessAlive next)
    (hfails : ∀ e ∈ es, ClientFailure e.2 → fails) :
    ∃ fs abs, Run (Move Prog.code (StoresServe redis fails)) abs fs abs'
      ∧ Alongside fails now abs := by
  obtain ⟨-, hrun⟩ := pooled_run hrun halive hfails hp
  obtain ⟨abs, fs, habs, hruns⟩ :=
    (clients_step redis fails conns).run (fun _ _ _ h => h) hrun h
  exact ⟨fs, abs, hruns, habs⟩

/-- They can end where the requests over the pools have ended. -/
theorem Pooled.exists_alongside
    (redis : Service RedisCommand RedisCommand.Reply ρ)
    (hp : Pooled fails conns now) : ∃ abs, Alongside fails now abs :=
  (clients_step redis fails conns).exists_related hp

/-- Requests over the pools end as they end over the stores. -/
theorem clients_run {redisPoolSize dbPoolSize : UInt64} {s : ρ}
    {table : UrlTable} {handlers : ι → Prog Call Call.Reply α}
    {es : List (ClientEvent ι)}
    (hrun : Run (PooledStep redis)
      (pooledStart redisPoolSize dbPoolSize s table handlers) es now)
    (hfails : ∀ e ∈ es, ClientFailure e.2 → fails)
    (halive : ProcessAlive now) :
    ∃ fs abs, Run (Move Prog.code (StoresServe redis fails))
        ⟨(s, table), handlers⟩ fs abs ∧ Agrees now abs := by
  have hstart := pooled_start fails redisPoolSize dbPoolSize s table handlers
  obtain ⟨hnow, -⟩ := pooled_run hrun halive hfails hstart
  obtain ⟨abs, habs⟩ := hnow.exists_alongside redis
  obtain ⟨fs, absStart, hruns, hrel⟩ := habs.before hstart hrun halive hfails
  rw [hrel.eq_start] at hruns
  exact ⟨fs, abs, hruns, .of_alongside habs⟩

/-- Requests over the pools end as they end over the stores, each call of
a client one step, and at every point of the run they are where they are
there. libpq may fail on any call, if the table may. -/
theorem clients_atomic (redis : Service RedisCommand RedisCommand.Reply ρ)
    (redisPoolSize dbPoolSize : UInt64) (s : ρ) (table : UrlTable)
    (handlers : ι → Prog Call Call.Reply α) (fails : Prop)
    {mid : PooledTraffic ι α ρ} {es es' : List (ClientEvent ι)}
    (hbefore : Run (PooledStep redis)
      (pooledStart redisPoolSize dbPoolSize s table handlers) es mid)
    (hafter : Run (PooledStep redis) mid es' now)
    (hfails : ∀ e ∈ es ++ es', ClientFailure e.2 → fails)
    (halive : ProcessAlive now) :
    ∃ absMid abs fs fs',
      Run (Move Prog.code (StoresServe redis fails)) ⟨(s, table), handlers⟩ fs
        absMid
      ∧ Run (Move Prog.code (StoresServe redis fails)) absMid fs' abs
      ∧ Agrees mid absMid ∧ Agrees now abs := by
  obtain ⟨hfails, hfails'⟩ := List.forall_mem_append.mp hfails
  have haliveMid := alive_of_run hafter halive
  have hstart := pooled_start fails redisPoolSize dbPoolSize s table handlers
  obtain ⟨hmid, -⟩ := pooled_run hbefore haliveMid hfails hstart
  obtain ⟨hnow, -⟩ := pooled_run hafter halive hfails' hmid
  obtain ⟨abs, habs⟩ := hnow.exists_alongside redis
  obtain ⟨fs', absMid, hruns', hrelMid⟩ :=
    habs.before hmid hafter halive hfails'
  obtain ⟨fs, absStart, hruns, hrel⟩ :=
    hrelMid.before hstart hbefore haliveMid hfails
  rw [hrel.eq_start] at hruns
  exact ⟨absMid, abs, fs, fs', hruns, hruns', .of_alongside hrelMid,
    .of_alongside habs⟩

end

/-- Two requests on two connections to Redis, each in the middle of its
call while the other is. -/
theorem twoGets_run :
    ∃ es es', ∃ mid now : PooledTraffic Bool (Option Str) (Str → Option Str),
      Run (PooledStep RedisMap)
        (pooledStart 2 1 (fun _ => none) (fun _ => none) fun _ : Bool =>
          .call (.redisGet "0000aZ".toList) .ret) es mid
      ∧ Run (PooledStep RedisMap) mid es' now
      ∧ (∀ e ∈ es ++ es', ¬ ClientFailure e.2)
      ∧ ProcessAlive now
      ∧ (∃ c k p, mid.point true = .inside c k p)
      ∧ ∀ i, now.point i = .outside (.ret none) := by
  have hthere : ∃ es es',
      ∃ mid now : PooledTraffic Bool (Option Str) (Str → Option Str),
      Run (Move pooledClients.layered (poolsServe RedisMap))
        (pooledStart 2 1 (fun _ => none) (fun _ => none) fun _ : Bool =>
          .call (.redisGet "0000aZ".toList) .ret) es mid
      ∧ Run (Move pooledClients.layered (poolsServe RedisMap)) mid es' now
      ∧ (∀ e ∈ es ++ es', ¬ ClientFailure e.2)
      ∧ (∃ c k p, mid.point true = .inside c k p)
      ∧ ∀ i, now.point i = .outside (.ret none) := by
    refine ⟨_, _, _, _,
      .cons (.call (i := false) rfl (.left .acquire))
        (.cons (.call (i := true) rfl (.left .acquire)) (.nil _)),
      .cons (.call (i := false) rfl (.left (.command .get)))
        (.cons (.call (i := true) rfl (.left (.command .get)))
        (.cons (.call (i := true) rfl (.left .release))
        (.cons (.call (i := false) rfl (.left .release)) (.nil _)))),
      ?_, ⟨_, _, _, rfl⟩, ?_⟩
    · simp [ClientFailure]
    · intro i
      cases i <;> rfl
  obtain ⟨es, es', mid, now, hbefore, hafter, hfine, hmid, hnow⟩ := hthere
  have halive : ProcessAlive now := by
    intro i hexited
    obtain ⟨c, k, hi⟩ := hexited
    rw [hnow i] at hi
    cases hi
  obtain ⟨haliveMid, hafter⟩ := pooled_of_run hafter halive
  obtain ⟨-, hbefore⟩ := pooled_of_run hbefore haliveMid
  exact ⟨es, es', mid, now, hbefore, hafter, hfine, halive, hmid, hnow⟩

theorem clients_atomic_two :
    ∃ mid now : PooledTraffic Bool (Option Str) (Str → Option Str),
      (∃ c k p, mid.point true = .inside c k p)
      ∧ (∀ i, now.point i = .outside (.ret none))
      ∧ ∃ absMid abs fs fs',
        Run (Move Prog.code (StoresServe RedisMap False))
          ⟨(fun _ => none, fun _ => none), fun _ : Bool =>
            .call (.redisGet "0000aZ".toList) .ret⟩ fs absMid
        ∧ Run (Move Prog.code (StoresServe RedisMap False)) absMid fs' abs
        ∧ Agrees mid absMid ∧ Agrees now abs := by
  obtain ⟨es, es', mid, now, hbefore, hafter, hfine, halive, hmid, hnow⟩ :=
    twoGets_run
  exact ⟨mid, now, hmid, hnow, clients_atomic RedisMap 2 1 _ _ _ False hbefore
    hafter hfine halive⟩

end Creeper
