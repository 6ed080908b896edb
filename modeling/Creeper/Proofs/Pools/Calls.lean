/-
Where the calls of the clients stand.

A call to the database is a loop over libpq. A query takes effect when
libpq reads its result in, and only later does the client learn of it,
or fail to. So at a point of the loop it is known whether the table has
been changed, but not what will be returned: `DatabaseCall.Stands` has
all that is possible, and the steps of a call are matched backwards, from
how it may stand after one to how it stood before (`Call.Carries`).

A call to Redis is simpler, its command and its answer are one step.
-/
import Creeper.Clients
import Creeper.Proofs.Pools.Lookups
import Creeper.Proofs.Pools.Redis

namespace Creeper

open Lib

-- ================================================================== the table

/-- The query of a call has no error of its own. -/
theorem DatabaseCall.execute_ne_error (c : DatabaseCall) (table : UrlTable) :
    (c.execute table).2 ≠ .error := by
  cases c with
  | store shortCode longUrl => nofun
  | lookup shortCode => nofun

/-- A query that is executed and reported is a step of the table. -/
theorem DatabaseCall.execute_serves (fails : Prop) (c : DatabaseCall)
    (table : UrlTable) :
    TableServes fails c table
      (c.onResult (c.execute table).2 c.failure).2 (c.execute table).1 := by
  cases c with
  | store shortCode longUrl => exact .stored
  | lookup shortCode =>
      rw [DatabaseCall.execute_lookup]
      have hserves : TableServes fails (.lookup shortCode) table
          ((table (cString shortCode)).map cString) table := .found
      cases hrow : table (cString shortCode) with
      | none =>
          rw [hrow] at hserves
          exact hserves
      | some row =>
          rw [hrow] at hserves
          exact hserves

/-- And so is one that is not reported. -/
theorem DatabaseCall.execute_unreported {fails : Prop} (h : fails)
    (c : DatabaseCall) (table : UrlTable) :
    TableServes fails c table c.failure (c.execute table).1 := by
  cases c with
  | store shortCode longUrl => exact .unreported h
  | lookup shortCode => exact .failed h

-- ============================================================= the points

/-- The points of the loop, with the result so far. A result is fetched
only once it is there. -/
inductive DatabaseCall.Looping (c : DatabaseCall) (result : c.Result)
    (st : ConnStatus) : DatabasePoint → Prop
  | consume (conn : Nat) : Looping c result st (.consume conn c result)
  | busy (conn : Nat) : Looping c result st (.busy conn c result)
  | fetch (conn : Nat) (hready : ∀ query values, st ≠ .sent query values) :
      Looping c result st (.fetch conn c result)

/-- How a call stands in the loop: what it has so far, what its
connection is about, and what it may return if it has been served. -/
inductive DatabaseCall.Awaits (fails : Prop) (c : DatabaseCall) :
    c.Result → ConnStatus → Option c.Result → Prop
  | sent :
      Awaits fails c c.failure (.sent c.query (c.params.map Param.read)) none
  | error : Awaits fails c c.failure (.answered .error) none
  | answered {res : PGresult} (hres : res ≠ .error) :
      Awaits fails c c.failure (.answered res)
        (some (c.onResult res c.failure).2)
  | lost {res : PGresult} (hres : res ≠ .error) (h : fails) :
      Awaits fails c c.failure (.answered res) (some c.failure)
  | drained (result : c.Result) :
      Awaits fails c result .drained (some result)

/-- How a call stands at a point, given the status of its connection. -/
inductive DatabaseCall.Stands (fails : Prop) (c : DatabaseCall) :
    DatabasePoint → Option ConnStatus → Option c.Result → Prop
  | call {st : Option ConnStatus} : Stands fails c (.call c) st none
  | send {conn : Nat} {st : Option ConnStatus} :
      Stands fails c (.send conn c) st none
  | looping {p : DatabasePoint} {result : c.Result} {st : ConnStatus}
      {o : Option c.Result} (hp : c.Looping result st p)
      (h : c.Awaits fails result st o) : Stands fails c p (some st) o
  | release {conn : Nat} {st : Option ConnStatus} {result : c.Result} :
      Stands fails c (.release conn c result) st (some result)
  | returned {st : Option ConnStatus} {result : c.Result} :
      Stands fails c (.returned c result) st (some result)

section

variable {fails : Prop} {c : DatabaseCall} {result : c.Result}
  {st : ConnStatus} {conn : Nat} {o : Option c.Result}

/-- In the loop, a call stands as its connection says. -/
theorem DatabaseCall.Looping.stands_iff {p : DatabasePoint}
    (hp : c.Looping result st p) :
    c.Stands fails p (some st) o ↔ c.Awaits fails result st o := by
  constructor
  · intro h
    cases hp with
    | consume conn =>
        cases h with
        | looping hp' h =>
            cases hp'
            exact h
    | busy conn =>
        cases h with
        | looping hp' h =>
            cases hp'
            exact h
    | fetch conn hready =>
        cases h with
        | looping hp' h =>
            cases hp'
            exact h
  · exact .looping hp

/-- A call that begins has not been served. -/
theorem DatabaseCall.stands_call_iff {st : Option ConnStatus} :
    c.Stands fails (.call c) st o ↔ o = none := by
  constructor
  · intro h
    cases h with
    | call => rfl
    | looping hp => cases hp
  · intro h
    subst h
    exact .call

/-- A call at its end has a result. -/
theorem DatabaseCall.stands_release_iff {st : Option ConnStatus} :
    c.Stands fails (.release conn c result) st o ↔ o = some result := by
  constructor
  · intro h
    cases h with
    | release => rfl
    | looping hp => cases hp
  · intro h
    subst h
    exact .release

/-- A call that has returned is the one that was made. -/
theorem DatabaseCall.Stands.of_returned {c' : DatabaseCall}
    {result : c'.Result} {st : Option ConnStatus}
    (h : c.Stands fails (.returned c' result) st o) :
    ∃ heq : c' = c, o = some (heq ▸ result) := by
  cases h with
  | returned => exact ⟨rfl, rfl⟩
  | looping hp => cases hp

/-- Once its result has been taken, a call returns it. -/
theorem DatabaseCall.awaits_drained_iff :
    c.Awaits fails result .drained o ↔ o = some result := by
  constructor
  · intro h
    cases h with
    | drained => rfl
  · intro h
    subst h
    exact .drained result

/-- What is matched across a step of the call: it stands in some way after
it, and for each such way in one before it. -/
def DatabaseCall.Carries (fails : Prop) (c : DatabaseCall)
    (p : DatabasePoint) (st : Option ConnStatus) (table : UrlTable)
    (p' : DatabasePoint) (st' : Option ConnStatus) (table' : UrlTable) :
    Prop :=
  (∃ o', c.Stands fails p' st' o')
    ∧ ∀ o', c.Stands fails p' st' o' → ∃ o, c.Stands fails p st o
      ∧ Serving (TableServes fails) c table table' o o'

variable {pq pq' : Libpq} {held : Nat} {cmd : PqCall}
  {k : cmd.Reply → DatabasePoint} {r : cmd.Reply}

/-- Sending the query. -/
theorem DatabaseCall.Carries.send
    (hcode : RealDatabaseClient.code (.send held c)
      = some ⟨.command conn cmd, k⟩)
    (hfails : Failure ⟨.command conn cmd, r⟩ → fails)
    (h : Libpq.Serves conn cmd pq r pq') :
    c.Carries fails (.send held c) (some (pq.status conn)) pq.table (k r)
      ((k r).conn.map pq'.status) pq'.table := by
  cases hcode
  cases h with
  | sent hidle =>
      show DatabaseCall.Carries _ _ _ _ _ (.consume conn c c.failure)
        (some ((pq.setStatus conn _).status conn)) _
      rw [Libpq.status_setStatus]
      refine ⟨⟨none, .looping (.consume conn) .sent⟩, fun o' ho' => ?_⟩
      cases (DatabaseCall.Looping.consume conn).stands_iff.mp ho'
      exact ⟨none, .send, .idle rfl⟩
  | sendRefused =>
      refine ⟨⟨_, .release⟩, fun o' ho' => ?_⟩
      obtain rfl := DatabaseCall.stands_release_iff.mp ho'
      exact ⟨none, .send, .served (.failed (hfails rfl))⟩

/-- Reading the input. -/
theorem DatabaseCall.Carries.consume
    (hst : ∃ o, c.Awaits fails result (pq.status conn) o)
    (hcode : RealDatabaseClient.code (.consume held c result)
      = some ⟨.command conn cmd, k⟩)
    (hfails : Failure ⟨.command conn cmd, r⟩ → fails)
    (h : Libpq.Serves conn cmd pq r pq') :
    c.Carries fails (.consume held c result) (some (pq.status conn)) pq.table
      (k r) ((k r).conn.map pq'.status) pq'.table := by
  have hnow : ∀ st o, c.Stands fails (.consume held c result) (some st) o
      ↔ c.Awaits fails result st o := fun _ _ =>
    (DatabaseCall.Looping.consume held).stands_iff
  have hnext : ∀ st o, c.Stands fails (.busy held c result) (some st) o
      ↔ c.Awaits fails result st o := fun _ _ =>
    (DatabaseCall.Looping.busy held).stands_iff
  obtain ⟨o, ho⟩ := hst
  cases hcode
  cases h with
  | consumed =>
      refine ⟨⟨o, (hnext _ _).mpr ho⟩, fun o' ho' => ?_⟩
      exact ⟨o', (hnow _ _).mpr ((hnext _ _).mp ho'), .idle rfl⟩
  | executed hsent =>
      rw [hsent] at ho ⊢
      cases ho with
      | sent =>
      have hres := c.execute_ne_error pq.table
      show DatabaseCall.Carries _ _ _ _ _ (.busy conn c c.failure)
        (some (Function.update pq.status conn _ conn))
        (c.execute pq.table).1
      rw [Function.update_self]
      show DatabaseCall.Carries _ _ _ _ _ (.busy conn c c.failure)
        (some (.answered (c.execute pq.table).2)) _
      refine ⟨⟨_, (hnext _ _).mpr (.answered hres)⟩, fun o' ho' => ?_⟩
      refine ⟨none, (hnow _ _).mpr .sent, ?_⟩
      generalize hanswer : (c.execute pq.table).2 = res at hres ho'
      cases (hnext _ _).mp ho' with
      | error => exact absurd rfl hres
      | answered =>
          subst hanswer
          exact .served (c.execute_serves fails pq.table)
      | lost _ h => exact .served (c.execute_unreported h pq.table)
  | failed hsent =>
      rw [hsent] at ho ⊢
      cases ho with
      | sent =>
      show DatabaseCall.Carries _ _ _ _ _ (.busy conn c c.failure)
        (some ((pq.setStatus conn _).status conn)) _
      rw [Libpq.status_setStatus]
      refine ⟨⟨_, (hnext _ _).mpr .error⟩, fun o' ho' => ?_⟩
      cases (hnext _ _).mp ho' with
      | error => exact ⟨none, (hnow _ _).mpr .sent, .idle rfl⟩
      | answered hres => exact absurd rfl hres
      | lost hres => exact absurd rfl hres
  | consumeFailed =>
      have h := hfails rfl
      refine ⟨⟨_, .release⟩, fun o' ho' => ?_⟩
      obtain rfl := DatabaseCall.stands_release_iff.mp ho'
      generalize pq.status conn = st at ho
      cases ho with
      | sent => exact ⟨none, (hnow _ _).mpr .sent, .served (.failed h)⟩
      | error => exact ⟨none, (hnow _ _).mpr .error, .served (.failed h)⟩
      | answered hres =>
          exact ⟨_, (hnow _ _).mpr (.lost hres h), .idle rfl⟩
      | lost hres => exact ⟨_, (hnow _ _).mpr (.lost hres h), .idle rfl⟩
      | drained => exact ⟨_, (hnow _ _).mpr (.drained result), .idle rfl⟩

/-- Asking whether the result is there. -/
theorem DatabaseCall.Carries.busy
    (hst : ∃ o, c.Awaits fails result (pq.status conn) o)
    (hcode : RealDatabaseClient.code (.busy held c result)
      = some ⟨.command conn cmd, k⟩)
    (h : Libpq.Serves conn cmd pq r pq') :
    c.Carries fails (.busy held c result) (some (pq.status conn)) pq.table
      (k r) ((k r).conn.map pq'.status) pq'.table := by
  obtain ⟨o, ho⟩ := hst
  have hnow : ∀ o, c.Stands fails (.busy held c result)
      (some (pq.status conn)) o ↔ c.Awaits fails result (pq.status conn) o :=
    fun _ => (DatabaseCall.Looping.busy held).stands_iff
  cases hcode
  cases h with
  | busy =>
      refine ⟨⟨o, .looping (.consume conn) ho⟩, fun o' ho' => ?_⟩
      have hafter := (DatabaseCall.Looping.consume conn).stands_iff.mp ho'
      exact ⟨o', (hnow o').mpr hafter, .idle rfl⟩
  | notBusy hready =>
      refine ⟨⟨o, .looping (.fetch conn hready) ho⟩, fun o' ho' => ?_⟩
      have hafter := (DatabaseCall.Looping.fetch conn hready).stands_iff.mp ho'
      exact ⟨o', (hnow o').mpr hafter, .idle rfl⟩

/-- Taking the result. -/
theorem DatabaseCall.Carries.fetch
    (hst : ∃ o, c.Awaits fails result (pq.status conn) o)
    (hcode : RealDatabaseClient.code (.fetch held c result)
      = some ⟨.command conn cmd, k⟩)
    (hfails : Failure ⟨.command conn cmd, r⟩ → fails)
    (h : Libpq.Serves conn cmd pq r pq') :
    c.Carries fails (.fetch held c result) (some (pq.status conn)) pq.table
      (k r) ((k r).conn.map pq'.status) pq'.table := by
  have hnow : ∀ st o, (∀ query values, st ≠ .sent query values) →
      (c.Stands fails (.fetch held c result) (some st) o
        ↔ c.Awaits fails result st o) := fun _ _ hready =>
    (DatabaseCall.Looping.fetch held hready).stands_iff
  obtain ⟨o, ho⟩ := hst
  cases hcode
  cases h with
  | @gotResult _ res hanswered =>
      rw [hanswered] at ho ⊢
      -- the result so far is the first one, so what comes is all there is
      have hso : result = c.failure := by
        cases ho <;> rfl
      subst hso
      have hback : ∃ o, c.Stands fails (.fetch conn c c.failure)
          (some (.answered res)) o
          ∧ Serving (TableServes fails) c pq.table pq.table o
            (some (c.onResult res c.failure).2) := by
        by_cases hres : res = .error
        · subst hres
          refine ⟨none, (hnow (.answered .error) _ nofun).mpr .error,
            .served ?_⟩
          have hfailure : (c.onResult .error c.failure).2 = c.failure := by
            cases c <;> rfl
          rw [hfailure]
          exact .failed (hfails rfl)
        · exact ⟨_, (hnow (.answered res) _ nofun).mpr (.answered hres),
            .idle rfl⟩
      have hgo : ∀ p', p' = (if (c.onResult res c.failure).1 then
            .consume conn c (c.onResult res c.failure).2
          else .release conn c (c.onResult res c.failure).2) →
          c.Carries fails (.fetch conn c c.failure) (some (.answered res))
            pq.table p' (p'.conn.map (pq.setStatus conn .drained).status)
            pq.table := by
        intro p' hp'
        split at hp'
        · subst hp'
          show DatabaseCall.Carries _ _ _ _ _ (.consume conn c _)
            (some ((pq.setStatus conn _).status conn)) _
          rw [Libpq.status_setStatus]
          refine ⟨⟨_, .looping (.consume conn) (.drained _)⟩,
            fun o' ho' => ?_⟩
          obtain rfl := DatabaseCall.awaits_drained_iff.mp
            ((DatabaseCall.Looping.consume conn).stands_iff.mp ho')
          exact hback
        · subst hp'
          refine ⟨⟨_, .release⟩, fun o' ho' => ?_⟩
          obtain rfl := DatabaseCall.stands_release_iff.mp ho'
          exact hback
      exact hgo _ rfl
  | gotNull hdone =>
      refine ⟨⟨_, .release⟩, fun o' ho' => ?_⟩
      obtain rfl := DatabaseCall.stands_release_iff.mp ho'
      rcases hdone with hdrained | hidle
      · rw [hdrained]
        exact ⟨_, (hnow .drained _ nofun).mpr (.drained result), .idle rfl⟩
      · rw [hidle] at ho
        cases ho

/-- A command of a call that stands. -/
theorem DatabaseCall.Carries.command {p : DatabasePoint}
    (hst : ∃ o, c.Stands fails p (some (pq.status conn)) o)
    (hcode : RealDatabaseClient.code p = some ⟨.command conn cmd, k⟩)
    (hfails : Failure ⟨.command conn cmd, r⟩ → fails)
    (h : Libpq.Serves conn cmd pq r pq') :
    c.Carries fails p (some (pq.status conn)) pq.table (k r)
      ((k r).conn.map pq'.status) pq'.table := by
  obtain ⟨o, ho⟩ := hst
  cases ho with
  | call => cases hcode
  | send => exact .send hcode hfails h
  | looping hp hawaits =>
      cases hp with
      | consume held => exact .consume ⟨o, hawaits⟩ hcode hfails h
      | busy held => exact .busy ⟨o, hawaits⟩ hcode h
      | fetch held => exact .fetch ⟨o, hawaits⟩ hcode hfails h
  | release => cases hcode
  | returned => cases hcode

end

-- ============================================================ the pooled calls

/-- A step of a call on the pool, whatever it calls. -/
theorem DatabaseCall.Carries.pooled {fails : Prop} {c : DatabaseCall}
    {p : DatabasePoint} {pc : PoolCall Nat PqCall}
    {k : PoolCall.Reply PqCall.Reply pc → DatabasePoint}
    {r : PoolCall.Reply PqCall.Reply pc} {pool pool' : Pool Nat Libpq}
    (hst : ∃ o, c.Stands fails p (p.conn.map pool.behind.status) o)
    (hcode : RealDatabaseClient.code p = some ⟨pc, k⟩)
    (hfails : Failure ⟨pc, r⟩ → fails)
    (h : Pool.Serves Libpq.Serves pc pool r pool') :
    c.Carries fails p (p.conn.map pool.behind.status) pool.behind.table (k r)
      ((k r).conn.map pool'.behind.status) pool'.behind.table := by
  obtain ⟨o, ho⟩ := hst
  cases h with
  | acquire =>
      generalize p.conn.map _ = st at ho ⊢
      cases ho with
      | call =>
          cases hcode
          refine ⟨⟨none, .send⟩, fun o' ho' => ?_⟩
          cases ho' with
          | send => exact ⟨none, .call, .idle rfl⟩
          | looping hp => cases hp
      | send => cases hcode
      | looping hp => cases hp <;> cases hcode
      | release => cases hcode
      | returned => cases hcode
  | @command conn cmd r queue pq pq' hserves =>
      obtain ⟨hconn, -⟩ := postgres_borrows.command _ _ _ _ hcode
      rw [hconn] at ho ⊢
      exact .command ⟨o, ho⟩ hcode hfails hserves
  | release =>
      generalize p.conn.map _ = st at ho ⊢
      cases ho with
      | call => cases hcode
      | send => cases hcode
      | looping hp => cases hp <;> cases hcode
      | @release conn st result =>
          cases hcode
          refine ⟨⟨_, .returned⟩, fun o' ho' => ?_⟩
          cases ho' with
          | returned => exact ⟨_, .release, .idle rfl⟩
      | returned => cases hcode

/-- The connection of a call to the database. -/
def clientConn : ClientPoint → Option Nat :=
  Sum.elim (fun _ => none) DatabasePoint.conn

/-- How a call of either client stands at a point. -/
inductive Call.Stands (fails : Prop) :
    (c : Call) → ClientPoint → Option ConnStatus → Option c.Reply → Prop
  | getCalled {code : Str} {st : Option ConnStatus} :
      Stands fails (.redisGet code) (.inl (.call (.get code))) st none
  | getting {code : Str} {conn : Nat} {st : Option ConnStatus} :
      Stands fails (.redisGet code) (.inl (.getCommand conn code)) st none
  | getReleasing {code : Str} {conn : Nat} {st : Option ConnStatus}
      {result : Option Str} :
      Stands fails (.redisGet code) (.inl (.getRelease conn result)) st
        (some result)
  | got {code : Str} {st : Option ConnStatus} {result : Option Str} :
      Stands fails (.redisGet code) (.inl (.got result)) st (some result)
  | setCalled {code url : Str} {st : Option ConnStatus} :
      Stands fails (.redisSet code url) (.inl (.call (.set code url))) st none
  | setting {code url : Str} {conn : Nat} {st : Option ConnStatus} :
      Stands fails (.redisSet code url) (.inl (.setCommand conn code url)) st
        none
  | setReleasing {code url : Str} {conn : Nat} {st : Option ConnStatus} :
      Stands fails (.redisSet code url) (.inl (.setRelease conn)) st (some ())
  | wasSet {code url : Str} {st : Option ConnStatus} :
      Stands fails (.redisSet code url) (.inl .wasSet) st (some ())
  | lookup {code : Str} {p : DatabasePoint} {st : Option ConnStatus}
      {o : Option (Option Str)}
      (h : (DatabaseCall.lookup code).Stands fails p st o) :
      Stands fails (.dbLookup code) (.inr p) st o
  | store {code url : Str} {p : DatabasePoint} {st : Option ConnStatus}
      {o : Option Bool}
      (h : (DatabaseCall.store code url).Stands fails p st o) :
      Stands fails (.dbStore code url) (.inr p) st o

/-- What is matched across a step of a call, unless the process ends. -/
def Call.Carries {ρ : Type} (redis : Service RedisCommand RedisCommand.Reply ρ)
    (fails : Prop) (c : Call) (p : ClientPoint) (st : Option ConnStatus)
    (s : ρ × UrlTable) (p' : ClientPoint) (st' : Option ConnStatus)
    (s' : ρ × UrlTable) : Prop :=
  (p' = .inl .exited ∨ ∃ o', c.Stands fails p' st' o')
    ∧ ∀ o', c.Stands fails p' st' o' → ∃ o, c.Stands fails p st o
      ∧ Serving (StoresServe redis fails) c s s' o o'

section

variable {ρ : Type} {fails : Prop} {c : Call}

/-- A step of a call to Redis. -/
theorem Call.Carries.onRedis
    {redis : Service RedisCommand RedisCommand.Reply ρ} (table : UrlTable) {p : RedisPoint} {pc : PoolCall Nat RedisCommand}
    {k : PoolCall.Reply RedisCommand.Reply pc → RedisPoint}
    {r : PoolCall.Reply RedisCommand.Reply pc} {pool pool' : Pool Nat ρ}
    (hst : ∃ o, c.Stands fails (.inl p) none o)
    (hcode : RealRedisClient.code p = some ⟨pc, k⟩)
    (h : Pool.Serves (fun _ => redis) pc pool r pool') :
    c.Carries redis fails (.inl p) none (pool.behind, table) (.inl (k r)) none
      (pool'.behind, table) := by
  obtain ⟨o, ho⟩ := hst
  cases ho with
  | getCalled =>
      cases hcode
      cases h with
      | acquire =>
          refine ⟨Or.inr ⟨none, .getting⟩, fun o' ho' => ?_⟩
          cases ho' with
          | getting => exact ⟨none, .getCalled, .idle rfl⟩
  | getting =>
      cases hcode
      cases h with
      | command hserves =>
          cases r with
          | some result =>
              refine ⟨Or.inr ⟨_, .getReleasing⟩, fun o' ho' => ?_⟩
              cases ho' with
              | getReleasing =>
                  exact ⟨none, .getting, .served (.got hserves)⟩
          | none =>
              refine ⟨Or.inr ⟨_, .got⟩, fun o' ho' => ?_⟩
              cases ho' with
              | got => exact ⟨none, .getting, .served (.got hserves)⟩
  | getReleasing =>
      cases hcode
      cases h with
      | release =>
          refine ⟨Or.inr ⟨_, .got⟩, fun o' ho' => ?_⟩
          cases ho' with
          | got => exact ⟨_, .getReleasing, .idle rfl⟩
  | got => cases hcode
  | setCalled =>
      cases hcode
      cases h with
      | acquire =>
          refine ⟨Or.inr ⟨none, .setting⟩, fun o' ho' => ?_⟩
          cases ho' with
          | setting => exact ⟨none, .setCalled, .idle rfl⟩
  | setting =>
      cases hcode
      cases h with
      | command hserves =>
          cases r with
          | some u =>
              refine ⟨Or.inr ⟨_, .setReleasing⟩, fun o' ho' => ?_⟩
              cases ho' with
              | setReleasing =>
                  exact ⟨none, .setting, .served (.wasSet hserves)⟩
          | none => exact ⟨Or.inl rfl, fun o' ho' => nomatch ho'⟩
  | setReleasing =>
      cases hcode
      cases h with
      | release =>
          refine ⟨Or.inr ⟨_, .wasSet⟩, fun o' ho' => ?_⟩
          cases ho' with
          | wasSet => exact ⟨_, .setReleasing, .idle rfl⟩
  | wasSet => cases hcode

/-- A step of a call to the database. -/
theorem Call.Carries.onDatabase
    (redis : Service RedisCommand RedisCommand.Reply ρ) (s : ρ)
    {p : DatabasePoint} {pc : PoolCall Nat PqCall}
    {k : PoolCall.Reply PqCall.Reply pc → DatabasePoint}
    {r : PoolCall.Reply PqCall.Reply pc} {pool pool' : Pool Nat Libpq}
    (hst : ∃ o, c.Stands fails (.inr p) (p.conn.map pool.behind.status) o)
    (hcode : RealDatabaseClient.code p = some ⟨pc, k⟩)
    (hfails : Failure ⟨pc, r⟩ → fails)
    (h : Pool.Serves Libpq.Serves pc pool r pool') :
    c.Carries redis fails (.inr p) (p.conn.map pool.behind.status)
      (s, pool.behind.table) (.inr (k r))
      ((k r).conn.map pool'.behind.status) (s, pool'.behind.table) := by
  obtain ⟨o, ho⟩ := hst
  cases ho with
  | lookup ho =>
      obtain ⟨⟨o', ho'⟩, hback⟩ :=
        DatabaseCall.Carries.pooled ⟨_, ho⟩ hcode hfails h
      refine ⟨Or.inr ⟨o', .lookup ho'⟩, fun o' ho' => ?_⟩
      cases ho' with
      | lookup ho' =>
          obtain ⟨o, ho, hserving⟩ := hback _ ho'
          refine ⟨o, .lookup ho, ?_⟩
          cases hserving with
          | idle heq => exact .idle (congrArg (Prod.mk s) heq)
          | served hserves => exact .served (.lookedUp hserves)
  | store ho =>
      obtain ⟨⟨o', ho'⟩, hback⟩ :=
        DatabaseCall.Carries.pooled ⟨_, ho⟩ hcode hfails h
      refine ⟨Or.inr ⟨o', .store ho'⟩, fun o' ho' => ?_⟩
      cases ho' with
      | store ho' =>
          obtain ⟨o, ho, hserving⟩ := hback _ ho'
          refine ⟨o, .store ho, ?_⟩
          cases hserving with
          | idle heq => exact .idle (congrArg (Prod.mk s) heq)
          | served hserves => exact .served (.stored hserves)

end

end Creeper
