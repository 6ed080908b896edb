/-
The server with the shortener on it (src/session.cc, handle_response).

Here the two halves are put together: the threads of the server, and the
handlers over the pools of their clients. A message is parsed, then
dispatched and handled, and the response is written out. The dispatcher
and the handler of the route are one function, `handle`, from the request
to a program over the calls of the two clients.

`exit(1)` is somewhere in the middle of a handler, and ends all threads.
-/
import Creeper.AsyncServer
import Creeper.Clients

namespace Creeper

open Lib

/-- What answers a message. -/
def answering (beast : Beast) (handle : Request → Prog Call Call.Reply Response)
    (requestMsg : Str) : Prog Call Call.Reply Response :=
  let req := RequestParser.parse beast {} requestMsg
  if req.valid then handle req else .ret (stockResponse .c400)

/-- `handle_response` up to its log line, over the two pools. -/
def pooledApp (beast : Beast)
    (handle : Request → Prog Call Call.Reply Response) :
    App ClientCall ClientCall.Reply (HandlerPoint Response) where
  code := pooledClients.layered
  enter requestMsg := .outside (answering beast handle requestMsg)
  result
    | _, .outside (.ret response) => some (some response.toString)
    | _, _ => none

/-- The threads of a server over the two pools. -/
abbrev PooledWorkers (ι ρ : Type) : Type :=
  Workers ι (HandlerPoint Response) (ClientPools ρ)

/-- A step of one of them. -/
abbrev PooledWorkerStep {ι ρ : Type} [DecidableEq ι] (beast : Beast)
    (handle : Request → Prog Call Call.Reply Response)
    (redis : Service RedisCommand RedisCommand.Reply ρ) :
    PooledWorkers ι ρ → WorkerEvent ι ClientCall ClientCall.Reply →
      PooledWorkers ι ρ → Prop :=
  WorkerStep (pooledApp beast handle) (poolsServe redis)

/-- No thread has ended the process. -/
def ServerAlive {ι ρ : Type} (now : PooledWorkers ι ρ) : Prop :=
  ∀ i session requestMsg p, now.point i = .handling session requestMsg p →
    ¬ HasExited p

/-- The server with both clients constructed, before its first thread has
called `run()`. -/
def pooledServerStart {ι ρ : Type} (buffer : Nat → Buffer)
    (redisPoolSize dbPoolSize : UInt64) (s : ρ) (table : UrlTable) :
    PooledWorkers ι ρ :=
  serverStart buffer (redisConnectionPool redisPoolSize s,
    ⟨List.range dbPoolSize.toNat, ⟨fun _ => .idle, table⟩⟩)

end Creeper
