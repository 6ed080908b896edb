/-
The Redis client (src/real_redis_client.cc) over its pool
(src/redis_connection_pool.cc).

A call of the client acquires a connection, gives it one command and
releases it, and any number of calls are under way at once. `acquire`
and `release` hold the mutex of the pool, so each is one step; a call
that finds the queue empty waits.

Where redis++ throws, the rest of the `try` is skipped, and with it the
release: `conn` goes out of scope, and the connection with it. `get`
then returns `std::nullopt`, and `set` ends the process.

What Redis does with a command is not said here. `redis` is any relation
between what Redis has, a command, its answer and what Redis has then.
-/
import Creeper.Http
import Creeper.Lib.Pool

namespace Creeper

open Lib

-- ================================================================ the calls

/-- The commands of redis++ that the client gives. -/
inductive RedisCommand
  | get (key : Str)
  | set (key value : Str)

/-- What redis++ returns, or `none` where it throws an `Error`. -/
abbrev RedisCommand.Reply : RedisCommand → Type
  | .get _ => Option (Option Str)
  | .set _ _ => Option Unit

/-- redis++ throws. -/
def RedisCommand.throws : (c : RedisCommand) → c.Reply → Bool
  | .get _, reply => reply.isNone
  | .set _ _, reply => reply.isNone

/-- The calls of the client. -/
inductive RedisCall
  | get (shortCode : Str)
  | set (shortCode longUrl : Str)
  deriving DecidableEq

-- ================================================================= the pool

/-- The pool as its constructor leaves it: the connections in the order
in which they were made. -/
def redisConnectionPool {σ : Type} (poolSize : UInt64) (s : σ) :
    Pool Nat σ :=
  ⟨List.range poolSize.toNat, s⟩

-- =============================================================== the client

/-- The points of `get` and `set`, with the variables in scope. -/
inductive RedisPoint
  /-- A call of the client, which acquires a connection first. -/
  | call (c : RedisCall)
  /-- `conn->get(short_code)` -/
  | getCommand (conn : Nat) (shortCode : Str)
  /-- `pool_->release(conn)` in `get` -/
  | getRelease (conn : Nat) (result : Option Str)
  /-- `get` has returned. -/
  | got (result : Option Str)
  /-- `conn->set(short_code, long_url)` -/
  | setCommand (conn : Nat) (shortCode longUrl : Str)
  /-- `pool_->release(conn)` in `set` -/
  | setRelease (conn : Nat)
  /-- `set` has returned. -/
  | wasSet
  /-- `exit(1)` -/
  | exited
  deriving DecidableEq

/-- `RealRedisClient::get` and `RealRedisClient::set` -/
def RealRedisClient.code :
    Code (PoolCall Nat RedisCommand) (PoolCall.Reply RedisCommand.Reply)
      RedisPoint
  | .call (.get shortCode) =>
      some ⟨.acquire, fun conn => .getCommand conn shortCode⟩
  | .getCommand conn shortCode =>
      some ⟨.command conn (.get shortCode), fun
        | some result => .getRelease conn result
        | none => .got none⟩
  | .getRelease conn result =>
      some ⟨.release conn, fun _ => .got result⟩
  | .got _ => none
  | .call (.set shortCode longUrl) =>
      some ⟨.acquire, fun conn => .setCommand conn shortCode longUrl⟩
  | .setCommand conn shortCode longUrl =>
      some ⟨.command conn (.set shortCode longUrl), fun
        | some () => .setRelease conn
        | none => .exited⟩
  | .setRelease conn => some ⟨.release conn, fun _ => .wasSet⟩
  | .wasSet => none
  | .exited => none

/-- The connection in scope. -/
def RedisPoint.conn : RedisPoint → Option Nat
  | .getCommand conn _ => some conn
  | .getRelease conn _ => some conn
  | .setCommand conn _ _ => some conn
  | .setRelease conn => some conn
  | _ => none

/-- A call that has no connection yet, or that has returned. -/
def RedisPoint.AtRest : RedisPoint → Prop
  | .call _ => True
  | .got _ => True
  | .wasSet => True
  | _ => False

/-- A step of one of the calls. -/
abbrev RedisEvent (ι : Type) : Type :=
  ι × Answer (PoolCall Nat RedisCommand) (PoolCall.Reply RedisCommand.Reply)

/-- Calls of the client take their steps in any order. -/
abbrev RealRedisClient.Step {ι σ : Type} [DecidableEq ι]
    (redis : Service RedisCommand RedisCommand.Reply σ) :
    Running ι RedisPoint (Pool Nat σ) → RedisEvent ι →
      Running ι RedisPoint (Pool Nat σ) → Prop :=
  Move RealRedisClient.code (Pool.Serves fun _ => redis)

/-- A client that has been constructed, and the calls that will be
made. -/
def RealRedisClient.start {ι σ : Type} (poolSize : UInt64) (s : σ)
    (calls : ι → RedisCall) : Running ι RedisPoint (Pool Nat σ) :=
  ⟨redisConnectionPool poolSize s, fun i => .call (calls i)⟩

end Creeper
