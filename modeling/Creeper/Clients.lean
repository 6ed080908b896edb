/-
The handlers of the shortener over their clients: every call of
`ShortenRequestHandler` to `IRedisClient` or `IDatabaseClient` is code of
`RealRedisClient` or `RealDatabaseClient`, over the two pools.

Requests are handled at once, so at any time each is between two calls
or somewhere in the middle of one: waiting for a connection, giving it a
command, putting it back. A handler that has the result of a call goes
on with it at once. `exit(1)` in `RealRedisClient::set` ends the process,
and nothing happens after it.
-/
import Creeper.Lib.Sides
import Creeper.Postgres
import Creeper.Redis
import Creeper.Shorten

namespace Creeper

open Lib

-- ================================================================ the clients

/-- The points of a call of either client. -/
abbrev ClientPoint : Type := RedisPoint ⊕ DatabasePoint

/-- What the clients call: the Redis pool and redis++, the Postgres pool
and libpq. -/
abbrev ClientCall : Type := PoolCall Nat RedisCommand ⊕ PoolCall Nat PqCall

/-- What each is answered. -/
abbrev ClientCall.Reply : ClientCall → Type :=
  BothReply (PoolCall.Reply RedisCommand.Reply) (PoolCall.Reply PqCall.Reply)

/-- `redis_` and `db_` of the handler. -/
def pooledClients :
    Implementation Call Call.Reply ClientCall ClientCall.Reply ClientPoint where
  code := Code.beside RealRedisClient.code RealDatabaseClient.code
  enter
    | .redisGet shortCode => .inl (.call (.get shortCode))
    | .redisSet shortCode longUrl => .inl (.call (.set shortCode longUrl))
    | .dbLookup shortCode => .inr (.call (.lookup shortCode))
    | .dbStore shortCode longUrl => .inr (.call (.store shortCode longUrl))
  result
    | .redisGet _, .inl (.got result) => some result
    | .redisSet _ _, .inl .wasSet => some ()
    | .dbLookup _, .inr (.returned (.lookup _) result) => some result
    | .dbStore _ _, .inr (.returned (.store _ _) success) => some success
    | _, _ => none

-- =============================================================== the requests

/-- A request between its calls, or in one. -/
abbrev HandlerPoint (α : Type) : Type :=
  Layer Call Call.Reply α ClientPoint

/-- The two pools, with Redis and the database behind them. -/
abbrev ClientPools (ρ : Type) : Type := Pool Nat ρ × Pool Nat Libpq

/-- What the clients call, as the pools serve it. -/
abbrev poolsServe {ρ : Type}
    (redis : Service RedisCommand RedisCommand.Reply ρ) :
    Service ClientCall ClientCall.Reply (ClientPools ρ) :=
  Service.Beside (Pool.Serves fun _ => redis) (Pool.Serves Libpq.Serves)

/-- Requests under way over the pools. -/
abbrev PooledTraffic (ι α ρ : Type) : Type :=
  Running ι (HandlerPoint α) (ClientPools ρ)

/-- A step of one request. -/
abbrev ClientEvent (ι : Type) : Type := ι × Answer ClientCall ClientCall.Reply

/-- The request has ended the process. -/
def HasExited {α : Type} (p : HandlerPoint α) : Prop :=
  ∃ c k, p = .inside c k (.inl .exited)

/-- The process runs. -/
def ProcessAlive {ι α ρ : Type} (now : PooledTraffic ι α ρ) : Prop :=
  ∀ i, ¬ HasExited (now.point i)

/-- Requests take their steps in any order, as long as the process
runs. -/
def PooledStep {ι α ρ : Type} [DecidableEq ι]
    (redis : Service RedisCommand RedisCommand.Reply ρ)
    (now : PooledTraffic ι α ρ) (e : ClientEvent ι)
    (next : PooledTraffic ι α ρ) : Prop :=
  ProcessAlive now
    ∧ Move pooledClients.layered (poolsServe redis) now e next

/-- Both clients constructed, and handlers that have made no call. -/
def pooledStart {ι α ρ : Type} (redisPoolSize dbPoolSize : UInt64) (s : ρ)
    (table : UrlTable) (handlers : ι → Prog Call Call.Reply α) :
    PooledTraffic ι α ρ :=
  ⟨(redisConnectionPool redisPoolSize s,
      ⟨List.range dbPoolSize.toNat, ⟨fun _ => .idle, table⟩⟩),
    fun i => .outside (handlers i)⟩

-- ==================================================== the stores, step by step

/-- The table as its client serves it, each call one step. A call may
fail, a store after it has been executed. -/
inductive TableServes (fails : Prop) :
    Service DatabaseCall DatabaseCall.Result UrlTable
  | stored {code url : Str} {t : UrlTable} :
      TableServes fails (.store code url) t true
        (upsert t (cString code) (cString url))
  | unreported (h : fails) {code url : Str} {t : UrlTable} :
      TableServes fails (.store code url) t false
        (upsert t (cString code) (cString url))
  | found {code : Str} {t : UrlTable} :
      TableServes fails (.lookup code) t ((t (cString code)).map cString) t
  | failed (h : fails) {c : DatabaseCall} {t : UrlTable} :
      TableServes fails c t c.failure t

/-- Redis and the table as the clients serve them, each call one step. A
`get` that throws returns nothing. -/
inductive StoresServe {ρ : Type}
    (redis : Service RedisCommand RedisCommand.Reply ρ) (fails : Prop) :
    Service Call Call.Reply (ρ × UrlTable)
  | got {code : Str} {s s' : ρ} {t : UrlTable} {reply : Option (Option Str)}
      (h : redis (.get code) s reply s') :
      StoresServe redis fails (.redisGet code) (s, t) reply.join (s', t)
  | wasSet {code url : Str} {s s' : ρ} {t : UrlTable}
      (h : redis (.set code url) s (some ()) s') :
      StoresServe redis fails (.redisSet code url) (s, t) () (s', t)
  | lookedUp {code : Str} {s : ρ} {t t' : UrlTable} {result : Option Str}
      (h : TableServes fails (.lookup code) t result t') :
      StoresServe redis fails (.dbLookup code) (s, t) result (s, t')
  | stored {code url : Str} {s : ρ} {t t' : UrlTable} {success : Bool}
      (h : TableServes fails (.store code url) t success t') :
      StoresServe redis fails (.dbStore code url) (s, t) success (s, t')

end Creeper
