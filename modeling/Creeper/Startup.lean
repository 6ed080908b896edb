/-
From a parsed config to a listening server (`get_port` of
src/config_parser.cc, src/server_main.cc, the constructors of
src/server.cc and of the two connection pools).

A number changes its type on the way. `get_port` returns an `int`, the
`Server` takes it as a `short`, and `tcp::endpoint` takes that as an
unsigned short. The clients of the shortener take the pool size as an
`int` and their pools as a `size_t`, which is how many connections they
open.
-/
import Creeper.HandlerArgs

namespace Creeper

open Lib

-- ================================================================ get_port

theorem noPort_range : intMin ≤ -1 ∧ -1 ≤ intMax := by decide

/-- −1, where `get_port` has no port. -/
def noPort : CInt := .ofInt (-1) noPort_range

/-- The second word of a port directive as `get_port` returns it. -/
def parsePort (word : Str) : CInt :=
  match stoi word with
  | some (port, _) => port
  | none => noPort

mutual

/-- The body of the loop of `get_port`: what it returns, or `none` where
the loop goes on. -/
def NginxConfigStatement.findPort : NginxConfigStatement → Option CInt
  | .mk tokens none =>
      if tokens.length = 2 ∧ tokens.head? = some "port".toList then
        some (parsePort (tokens.getD 1 []))
      else none
  | .mk tokens (some block) =>
      if tokens.length = 2 ∧ tokens.head? = some "port".toList then
        some (parsePort (tokens.getD 1 []))
      else if NginxConfig.getPort block ≠ noPort then
        some (NginxConfig.getPort block)
      else none

/-- `NginxConfig::get_port` -/
def NginxConfig.getPort : List NginxConfigStatement → CInt
  | [] => noPort
  | statement :: statements =>
      match statement.findPort with
      | some port => port
      | none => NginxConfig.getPort statements

end

-- ============================================================= conversions

/-- `int` to `short`, and `short` to the unsigned short of an endpoint. -/
def endpointPort (port : CInt) : UInt16 := (Int16.ofInt port.val).toUInt16

/-- `int` to `size_t` -/
def toSizeT (i : CInt) : UInt64 := (Int64.ofInt i.val).toUInt64

/-- The connections `RedisConnectionPool` opens. -/
def RedisClient.connections : RedisClient → Option UInt64
  | .fakeRedisLocal => none
  | .real _ _ poolSize => some (toSizeT poolSize)

/-- The connections `PostgresConnectionPool` opens. -/
def DatabaseClient.connections : DatabaseClient → Option UInt64
  | .fakeDbLocal => none
  | .real _ _ _ _ poolSize => some (toSizeT poolSize)

/-- What the pools of a handler open. -/
def RequestHandlerArgs.poolConnections : RequestHandlerArgs → List UInt64
  | .shorten redisClient dbClient =>
      redisClient.connections.toList ++ dbClient.connections.toList
  | _ => []

-- ==================================================================== main

/-- A `Server` that listens, with the locations of its dispatcher. -/
structure Server where
  port : UInt16
  locations : List (NginxLocation RequestHandlerArgs)

/-- `main` from the parsed config on: it throws without a port, the
acceptor throws where it cannot be bound, and the dispatcher throws for
invalid locations. -/
def startServer (env : Surroundings) (binds : UInt16 → Bool)
    (config : NginxConfig) : Ended Server :=
  if NginxConfig.getPort config = noPort then .stopped
  else if binds (endpointPort (NginxConfig.getPort config)) then do
    let result ← NginxConfig.getLocations env config
    if result.valid then
      return { port := endpointPort (NginxConfig.getPort config)
               locations := result.locations }
    else .stopped
  else .stopped

end Creeper
