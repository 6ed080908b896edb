/-
The connections of the Redis client.

The two calls borrow (`redis_borrows`): each uses only the connection it
has acquired, and no connection is ever with two calls. But a call whose
command throws drops its connection, so the pool does not keep what it
was made with. `redisPool_conserved_iff` is exact, for any number of
calls, any order of their steps and whatever Redis answers: once no call
is under way, the queue is whole and has a connection for the next call
if and only if the pool was not made empty and no `get` has thrown.
-/
import Creeper.Lib.Submap
import Creeper.Redis

namespace Creeper

open Lib

-- ================================================================= the code

/-- The client uses only what it has acquired, and drops it where
redis++ throws. -/
theorem redis_borrows :
    Borrows RealRedisClient.code RedisPoint.conn RedisCommand.throws := by
  refine ⟨?_, ?_, ?_⟩
  · intro p k hcode
    cases p with
    | call c =>
        cases c with
        | get shortCode =>
            cases hcode
            exact ⟨rfl, fun _ => rfl⟩
        | set shortCode longUrl =>
            cases hcode
            exact ⟨rfl, fun _ => rfl⟩
    | _ => cases hcode
  · intro p conn c k hcode
    cases p with
    | call c => cases c <;> cases hcode
    | getCommand conn shortCode =>
        cases hcode
        refine ⟨rfl, fun reply => ?_⟩
        cases reply <;> rfl
    | setCommand conn shortCode longUrl =>
        cases hcode
        refine ⟨rfl, fun reply => ?_⟩
        cases reply <;> rfl
    | _ => cases hcode
  · intro p conn k hcode
    cases p with
    | call c => cases c <;> cases hcode
    | getRelease conn result =>
        cases hcode
        exact ⟨rfl, rfl⟩
    | setRelease conn =>
        cases hcode
        exact ⟨rfl, rfl⟩
    | _ => cases hcode

/-- At rest a call has no connection. -/
theorem RedisPoint.AtRest.conn {p : RedisPoint} (h : p.AtRest) :
    p.conn = none := by
  cases p with
  | call c => rfl
  | got result => rfl
  | wasSet => rfl
  | _ => exact h.elim

-- ================================================================= the runs

/-- A `get` throws. -/
def GetThrew {ι : Type} : RedisEvent ι → Prop
  | (_, ⟨.command _ (.get shortCode), reply⟩) =>
      RedisCommand.throws (.get shortCode) reply = true
  | _ => False

/-- No connection is with two calls, and once no call is under way the
queue has the connections it was made with and one for the next call. -/
structure RedisPoolConserved {ι σ : Type}
    (redis : Service RedisCommand RedisCommand.Reply σ) (made : List Nat)
    (now : Running ι RedisPoint (Pool Nat σ)) : Prop where
  one : ∀ i j conn, (now.point i).conn = some conn →
    (now.point j).conn = some conn → i = j
  whole : (∀ i, (now.point i).AtRest) → now.shared.queue.Perm made
    ∧ ∃ conn after, Pool.Serves (fun _ => redis) .acquire now.shared conn
        after

section

variable {ι σ : Type} [DecidableEq ι]
  {redis : Service RedisCommand RedisCommand.Reply σ} {poolSize : UInt64}
  {s : σ} {calls : ι → RedisCall}
  {es : List (RedisEvent ι)} {now : Running ι RedisPoint (Pool Nat σ)}

/-- A run as the ledger has it. -/
theorem redis_ledger
    (h : Run (RealRedisClient.Step redis)
      (RealRedisClient.start poolSize s calls) es now) :
    Run Ledger.Step (Ledger.full (redisConnectionPool poolSize s).queue)
      (es.map fun e => (e.1, handoverOf RedisCommand.throws e.2))
      (ledger RedisPoint.conn now) :=
  h.ledger redis_borrows

/-- Where a `set` has thrown, its call does not come to rest. -/
theorem not_atRest_of_set {before : Running ι RedisPoint (Pool Nat σ)}
    (h : Run (RealRedisClient.Step redis) before es now) {i : ι}
    {conn : Nat} {key value : Str}
    (hmem : (i, ⟨.command conn (.set key value), none⟩) ∈ es) :
    ¬ (now.point i).AtRest := by
  obtain ⟨pre, post, rfl⟩ := List.append_of_mem hmem
  obtain ⟨mid, -, hpost⟩ := h.split
  obtain ⟨after, hmove, hrest⟩ := Run.cons_iff.mp hpost
  obtain ⟨j, c, k, r, heq, hcode, -, hpoint, -⟩ := hmove.inv
  cases heq
  have hexited : after.point i = .exited := by
    rw [hpoint]
    cases hp : mid.point i with
    | call c =>
        rw [hp] at hcode
        cases c <;> cases hcode
    | setCommand conn shortCode longUrl =>
        rw [hp] at hcode
        cases hcode
        rfl
    | _ =>
        rw [hp] at hcode
        cases hcode
  rw [hrest.ended (i := i) (by rw [hexited]; rfl), hexited]
  exact id

/-- Once no call is under way, a connection was dropped just where a
`get` has thrown. -/
theorem dropped_iff_getThrew
    (h : Run (RealRedisClient.Step redis)
      (RealRedisClient.start poolSize s calls) es now)
    (hrest : ∀ i, (now.point i).AtRest) {e} (hmem : e ∈ es) :
    handoverOf RedisCommand.throws e.2 = .drop ↔ GetThrew e := by
  obtain ⟨i, ⟨c, reply⟩⟩ := e
  cases c with
  | acquire =>
      refine iff_of_false ?_ id
      simp [handoverOf]
  | release conn =>
      refine iff_of_false ?_ id
      simp [handoverOf]
  | command conn c =>
      cases c with
      | get key =>
          cases reply <;> simp [handoverOf, GetThrew, RedisCommand.throws]
      | set key value =>
          cases reply with
          | none => exact absurd (hrest i) (not_atRest_of_set h hmem)
          | some _ =>
              refine iff_of_false ?_ id
              simp [handoverOf, RedisCommand.throws]

/-- The pool keeps its connections just where none of the `get`s has
thrown, and can serve the next call where it was not made empty. -/
theorem redisPool_conserved_iff
    (h : Run (RealRedisClient.Step redis)
      (RealRedisClient.start poolSize s calls) es now) :
    RedisPoolConserved redis (redisConnectionPool poolSize s).queue now
      ↔ ((∀ i, (now.point i).AtRest) →
          1 ≤ poolSize.toNat ∧ ∀ e ∈ es, ¬ GetThrew e) := by
  have hnodup : (redisConnectionPool poolSize s).queue.Nodup :=
    List.nodup_range
  have hrun := redis_ledger h
  have hperm : (∀ i, (now.point i).AtRest) →
      (now.shared.queue.Perm (redisConnectionPool poolSize s).queue
        ↔ ∀ e ∈ es, ¬ GetThrew e) := by
    intro hrest
    have hiff := Ledger.perm_iff hnodup hrun fun i => (hrest i).conn
    refine hiff.trans ?_
    rw [List.forall_mem_map]
    apply forall₂_congr
    intro e hmem
    rw [← dropped_iff_getThrew h hrest hmem]
  have hsize : now.shared.queue.Perm (redisConnectionPool poolSize s).queue →
      (now.shared.queue ≠ [] ↔ 1 ≤ poolSize.toNat) := by
    intro hqueue
    have hlength : now.shared.queue.length = poolSize.toNat := by
      rw [hqueue.length_eq]
      exact List.length_range
    rw [← List.length_pos_iff, hlength]
    exact Iff.rfl
  constructor
  · intro hconserved hrest
    obtain ⟨hqueue, hacquire⟩ := hconserved.whole hrest
    refine ⟨?_, (hperm hrest).mp hqueue⟩
    exact (hsize hqueue).mp (Pool.acquire_iff.mp hacquire)
  · intro hcond
    refine ⟨fun i j conn hi hj => ?_, fun hrest => ?_⟩
    · exact (Ledger.sound_of_run hnodup hrun).one i j conn hi hj
    · obtain ⟨hpositive, hthrew⟩ := hcond hrest
      have hqueue := (hperm hrest).mpr hthrew
      refine ⟨hqueue, Pool.acquire_iff.mpr ?_⟩
      exact (hsize hqueue).mpr hpositive

end

-- ============================================================== two clients

/-- Redis as a map, any command of which may throw. -/
inductive RedisMap :
    Service RedisCommand RedisCommand.Reply (Str → Option Str)
  | get {key : Str} {m : Str → Option Str} :
      RedisMap (.get key) m (some (m key)) m
  | set {key value : Str} {m : Str → Option Str} :
      RedisMap (.set key value) m (some ()) (upsert m key value)
  | getThrew {key : Str} {m : Str → Option Str} :
      RedisMap (.get key) m none m
  | setThrew {key value : Str} {m : Str → Option Str} :
      RedisMap (.set key value) m none m

/-- A `set` and a `get` that use one connection in turn leave it in the
pool. -/
theorem redisPool_conserved_two :
    ∃ es now, Run (RealRedisClient.Step RedisMap)
        (RealRedisClient.start 1 (fun _ => none) fun second : Bool =>
          if second then .get "0000aZ".toList
          else .set "0000aZ".toList "http://a".toList) es now
      ∧ now.point true = .got (some "http://a".toList)
      ∧ RedisPoolConserved RedisMap [0] now := by
  have hrun : Run (RealRedisClient.Step RedisMap)
      (RealRedisClient.start 1 (fun _ => none) fun second : Bool =>
        if second then .get "0000aZ".toList
        else .set "0000aZ".toList "http://a".toList) _ _ :=
    .cons (.call (i := false) rfl .acquire)
      (.cons (.call (i := false) rfl (.command .set))
      (.cons (.call (i := false) rfl .release)
      (.cons (.call (i := true) rfl .acquire)
      (.cons (.call (i := true) rfl (.command .get))
      (.cons (.call (i := true) rfl .release) (.nil _))))))
  refine ⟨_, _, hrun, rfl, (redisPool_conserved_iff hrun).mpr ?_⟩
  intro _
  refine ⟨by decide, ?_⟩
  simp [GetThrew, RedisCommand.throws]

/-- In a pool of one, a `get` that throws leaves the next call waiting
for ever. -/
theorem redisPool_leaks :
    ∃ es now, Run (RealRedisClient.Step RedisMap)
        (RealRedisClient.start 1 (fun _ => none) fun _ : Bool =>
          .get "0000aZ".toList) es now
      ∧ now.point true = .call (.get "0000aZ".toList)
      ∧ now.point false = .got none
      ∧ (∀ e next, ¬ RealRedisClient.Step RedisMap now e next)
      ∧ ¬ RedisPoolConserved RedisMap [0] now := by
  have hrun : Run (RealRedisClient.Step RedisMap)
      (RealRedisClient.start 1 (fun _ => none) fun _ : Bool =>
        .get "0000aZ".toList) _ _ :=
    .cons (.call (i := false) rfl .acquire)
      (.cons (.call (i := false) rfl (.command .getThrew)) (.nil _))
  refine ⟨_, _, hrun, rfl, rfl, ?_, ?_⟩
  · intro e next hmove
    obtain ⟨i, c, k, r, -, hcode, hserves, -⟩ := hmove.inv
    cases i with
    | false => cases hcode
    | true =>
        cases hcode
        exact absurd rfl (Pool.acquire_iff.mp ⟨_, _, hserves⟩)
  · intro hconserved
    have hrest : ∀ i : Bool, RedisPoint.AtRest
        (Function.update (Function.update (fun _ : Bool => RedisPoint.call
          (.get "0000aZ".toList)) false (.getCommand 0 "0000aZ".toList))
          false (.got none) i) := by
      intro i
      cases i <;> trivial
    obtain ⟨hperm, -⟩ := hconserved.whole hrest
    exact absurd hperm.length_eq (by decide)

end Creeper
