/-
A call of a client, let go by itself.

Where a call is, the others may be stopped and the call run to its end:
a call to the database through its loop, reading the result in, fetching
it and then null, and giving its connection back. Each lemma is one such
stretch, the later ones ending in the earlier.

`pooled_of_goes` puts a call that goes to its end among requests over the
pools.
-/
import Creeper.Lib.Solo
import Creeper.Proofs.Pools.Clients

namespace Creeper

open Lib

-- ============================================================= the database

/-- A call to the database can go from one point to another by itself. -/
abbrev DatabaseGoes (ok : Answer (PoolCall Nat PqCall)
      (PoolCall.Reply PqCall.Reply) → Prop) :
    Pool Nat Libpq × DatabasePoint → Pool Nat Libpq × DatabasePoint → Prop :=
  Goes RealDatabaseClient.code (Pool.Serves Libpq.Serves) ok

/-- A connection that has been emptied. -/
def Libpq.emptied (pq : Libpq) (conn : Nat) : Libpq :=
  (pq.setStatus conn .drained).setStatus conn .idle

/-- The query is executed. -/
def Libpq.executed (pq : Libpq) (conn : Nat) (c : DatabaseCall) : Libpq :=
  { status := Function.update pq.status conn
      (.answered (c.execute pq.table).2)
    table := (c.execute pq.table).1 }

section

variable {ok : Answer (PoolCall Nat PqCall) (PoolCall.Reply PqCall.Reply) →
    Prop} (hok : ∀ a, ¬ Failure a → ok a) {conn : Nat} {queue : List Nat}
  {pq : Libpq} {c : DatabaseCall} {result : c.Result} {res : PGresult}

include hok

/-- The connection is given back. -/
theorem goes_release :
    DatabaseGoes ok (⟨queue, pq⟩, .release conn c result)
      (⟨queue ++ [conn], pq⟩, .returned c result) :=
  .call rfl .release (hok _ id) (.refl _)

/-- There is nothing more to fetch. -/
theorem goes_fetch_drained (hst : pq.status conn = .drained) :
    DatabaseGoes ok (⟨queue, pq⟩, .fetch conn c result)
      (⟨queue ++ [conn], pq.setStatus conn .idle⟩, .returned c result) :=
  .call rfl (.command (.gotNull (Or.inl hst))) (hok _ nofun)
    (goes_release hok)

/-- The last turn of the loop. -/
theorem goes_consume_drained (hst : pq.status conn = .drained) :
    DatabaseGoes ok (⟨queue, pq⟩, .consume conn c result)
      (⟨queue ++ [conn], pq.setStatus conn .idle⟩, .returned c result) := by
  have hready : ∀ query values, pq.status conn ≠ .sent query values := by
    intro query values
    rw [hst]
    nofun
  refine .call rfl (.command .consumed) (hok _ nofun) ?_
  refine .call rfl (.command (.notBusy hready)) (hok _ id) ?_
  exact goes_fetch_drained hok hst

/-- The result is fetched, and the loop goes on. -/
theorem goes_fetch_on (hst : pq.status conn = .answered res)
    (hres : ok ⟨.command conn .getResult, some res⟩)
    (hgo : (c.onResult res result).1 = true) :
    DatabaseGoes ok (⟨queue, pq⟩, .fetch conn c result)
      (⟨queue ++ [conn], pq.emptied conn⟩,
        .returned c (c.onResult res result).2) := by
  refine .call rfl (.command (.gotResult hst)) hres ?_
  show DatabaseGoes ok (_, if _ then _ else _) _
  rw [if_pos hgo]
  exact goes_consume_drained hok (pq.status_setStatus conn .drained)

/-- The result is fetched, and the loop is left. -/
theorem goes_fetch_out (hst : pq.status conn = .answered res)
    (hres : ok ⟨.command conn .getResult, some res⟩)
    (hgo : (c.onResult res result).1 = false) :
    DatabaseGoes ok (⟨queue, pq⟩, .fetch conn c result)
      (⟨queue ++ [conn], pq.setStatus conn .drained⟩,
        .returned c (c.onResult res result).2) := by
  refine .call rfl (.command (.gotResult hst)) hres ?_
  show DatabaseGoes ok (_, if _ then _ else _) _
  rw [if_neg (by rw [hgo]; exact Bool.false_ne_true)]
  exact goes_release hok

/-- The connection has the result of its query. -/
theorem goes_busy (hst : ∀ query values, pq.status conn ≠ .sent query values)
    {y : Pool Nat Libpq × DatabasePoint}
    (h : DatabaseGoes ok (⟨queue, pq⟩, .fetch conn c result) y) :
    DatabaseGoes ok (⟨queue, pq⟩, .busy conn c result) y :=
  .call rfl (.command (.notBusy hst)) (hok _ id) h

/-- The result of the query comes in, and is returned. -/
theorem goes_consume_sent
    (hst : pq.status conn = .sent c.query (c.params.map Param.read))
    (hgo : (c.onResult (c.execute pq.table).2 result).1 = true) :
    DatabaseGoes ok (⟨queue, pq⟩, .consume conn c result)
      (⟨queue ++ [conn], (pq.executed conn c).emptied conn⟩,
        .returned c (c.onResult (c.execute pq.table).2 result).2) := by
  have hanswered : (pq.executed conn c).status conn
      = .answered (c.execute pq.table).2 := Function.update_self ..
  have hexecuted : Libpq.Serves conn .consumeInput pq true
      (pq.executed conn c) := .executed hst
  refine .call rfl (.command hexecuted) (hok _ nofun) (goes_busy hok ?_ ?_)
  · intro query values
    rw [hanswered]
    nofun
  · refine goes_fetch_on hok hanswered (hok _ ?_) hgo
    intro heq
    exact c.execute_ne_error pq.table (Option.some.inj heq)

/-- The query is sent, executed and returned. -/
theorem goes_send (hst : pq.status conn = .idle)
    (hgo : (c.onResult (c.execute pq.table).2 c.failure).1 = true) :
    DatabaseGoes ok (⟨queue, pq⟩, .send conn c)
      (⟨queue ++ [conn], ((pq.setStatus conn
          (.sent c.query (c.params.map Param.read))).executed conn c).emptied
          conn⟩,
        .returned c (c.onResult (c.execute pq.table).2 c.failure).2) :=
  .call rfl (.command (.sent hst)) (hok _ nofun)
    (goes_consume_sent hok (pq.status_setStatus conn _) hgo)

end

-- ==================================================================== Redis

section

variable {ρ : Type} {redis : Service RedisCommand RedisCommand.Reply ρ}
  {conn : Nat} {queue : List Nat} {s s' : ρ} {code url : Str}
  {result : Option Str}

/-- redis++ throws. -/
def PoolThrew :
    Answer (PoolCall Nat RedisCommand) (PoolCall.Reply RedisCommand.Reply) →
      Bool
  | ⟨.command _ c, r⟩ => RedisCommand.throws c r
  | _ => false

/-- A call to Redis can go from one point to another by itself. -/
abbrev RedisGoes (redis : Service RedisCommand RedisCommand.Reply ρ) :
    Pool Nat ρ × RedisPoint → Pool Nat ρ × RedisPoint → Prop :=
  Goes RealRedisClient.code (Pool.Serves fun _ => redis)
    fun a => PoolThrew a = false

/-- A connection to Redis is given back after a `get`. -/
theorem goes_getRelease :
    RedisGoes redis (⟨queue, s⟩, .getRelease conn result)
      (⟨queue ++ [conn], s⟩, .got result) :=
  .call rfl .release rfl (.refl _)

/-- And after a `set`. -/
theorem goes_setRelease :
    RedisGoes redis (⟨queue, s⟩, .setRelease conn)
      (⟨queue ++ [conn], s⟩, .wasSet) :=
  .call rfl .release rfl (.refl _)

/-- A `get` that is answered. -/
theorem goes_get (h : redis (.get code) s (some result) s') :
    RedisGoes redis (⟨queue, s⟩, .getCommand conn code)
      (⟨queue ++ [conn], s'⟩, .got result) :=
  .call rfl (.command h) rfl goes_getRelease

/-- A `set` that is answered. -/
theorem goes_set (h : redis (.set code url) s (some ()) s') :
    RedisGoes redis (⟨queue, s⟩, .setCommand conn code url)
      (⟨queue ++ [conn], s'⟩, .wasSet) :=
  .call rfl (.command h) rfl goes_setRelease

end

-- =============================================================== among requests

section

variable {ι α ρ : Type} [DecidableEq ι]
  {redis : Service RedisCommand RedisCommand.Reply ρ}
  {now next : PooledTraffic ι α ρ} {e : ClientEvent ι}
  {es : List (ClientEvent ι)}

/-- A call that has returned has no code left. -/
theorem pooledClients_ended (c : Call) (p : ClientPoint) (r : c.Reply)
    (h : pooledClients.result c p = some r) : pooledClients.code p = none := by
  cases p with
  | inl p =>
      cases p with
      | got result => rfl
      | wasSet => rfl
      | _ => cases c <;> cases h
  | inr p =>
      cases p with
      | returned c' result => rfl
      | _ => cases c <;> cases h

/-- A call that can go to its end by itself, among the requests. -/
theorem pooled_of_goes {ok : Answer ClientCall ClientCall.Reply → Prop}
    (halive : ProcessAlive now) {i : ι} {c : Call}
    {k : c.Reply → Prog Call Call.Reply α} {p p' : ClientPoint}
    {s' : ClientPools ρ} {r : c.Reply}
    (hunder : pooledClients.Under c k p (now.point i))
    (hopen : pooledClients.result c p = none)
    (hresult : pooledClients.result c p' = some r)
    (h : Goes pooledClients.code (poolsServe redis) ok (now.shared, p)
      (s', p')) :
    ∃ es, Run (PooledStep redis) now es
        ⟨s', Function.update now.point i (.outside (k r))⟩
      ∧ (∀ e ∈ es, ok e.2)
      ∧ ProcessAlive (ρ := ρ)
        ⟨s', Function.update now.point i (.outside (k r))⟩ := by
  obtain ⟨as, hrun, has⟩ := h
  have hne : as ≠ [] := by
    intro hnil
    subst hnil
    cases hrun
    rw [hopen] at hresult
    cases hresult
  have hlayered := Implementation.solo_layered
    (fun p r => pooledClients_ended c p r) hrun hne hunder
  rw [Implementation.settle_of_some hresult] at hlayered
  have hthread := hlayered.of_solo now.point i
  rw [Function.update_eq_self] at hthread
  have hnext : ProcessAlive (ρ := ρ)
      ⟨s', Function.update now.point i (.outside (k r))⟩ := by
    refine (Function.forall_update_iff now.point
      fun _ l => ¬ HasExited l).mpr ⟨?_, fun j _ => halive j⟩
    intro hexited
    obtain ⟨d, m, heq⟩ := hexited
    cases heq
  refine ⟨_, (pooled_of_run hthread hnext).2, fun e he => ?_, hnext⟩
  obtain ⟨a, ha, rfl⟩ := List.mem_map.mp he
  exact has a ha

end

end Creeper
