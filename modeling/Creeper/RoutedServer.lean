/-
The server with the shortener and any other handlers on it
(src/session.cc, handle_response; src/request_handler_dispatcher.cc).

A config has locations beside the shortener's: files, entities, a health
check. Their handlers are code of any kind, over calls of their own on a
state of their own (a file system, say), and an exception may leave them.
What they do not do is call the clients of Redis and the database: those
belong to the shortener.

Which requests go to the shortener is the dispatcher's decision and any
function of the request here.
-/
import Creeper.PooledServer

namespace Creeper

open Lib

variable {D : Type} {S : D → Type} {ι π ρ τ : Type}

/-- Handlers: what becomes of a request, `none` where an exception leaves
the code. -/
abbrev Handlers (D : Type) (S : D → Type) (π : Type) : Type :=
  Implementation Request (fun _ => Option Response) D S π

/-- Handlers that are programs. -/
def Handlers.ofProg (handle : Request → Prog D S (Option Response)) :
    Handlers D S (Prog D S (Option Response)) where
  code := Prog.code
  enter := handle
  result _ := Prog.result

/-- `handle_response` up to its log line: the requests that `shortens`
has go to the shortener, over the two pools, and the others to handlers
of any kind, over what those work on. -/
def routedApp (beast : Beast) (h : ShortenRequestHandler)
    (shortens : Request → Bool) (others : Handlers D S π) :
    App (ClientCall ⊕ D) (BothReply ClientCall.Reply S)
      (HandlerPoint Response ⊕ π) where
  code := Code.beside pooledClients.layered others.code
  enter requestMsg :=
    let req := RequestParser.parse beast {} requestMsg
    if req.valid = false then .inl (.outside (.ret (stockResponse .c400)))
    else if shortens req then .inl (.outside (h.handleRequest req))
    else .inr (others.enter req)
  result
    | _, .inl (.outside (.ret response)) => some (some response.toString)
    | _, .inl _ => none
    | requestMsg, .inr p =>
        (others.result (RequestParser.parse beast {} requestMsg) p).map
          fun response => response.map Response.toString

/-- The threads of a server over the two pools and what the other
handlers work on. -/
abbrev RoutedWorkers (ι π ρ τ : Type) : Type :=
  Workers ι (HandlerPoint Response ⊕ π) (ClientPools ρ × τ)

/-- What its threads call. -/
abbrev RoutedEvent (ι D : Type) (S : D → Type) : Type :=
  WorkerEvent ι (ClientCall ⊕ D) (BothReply ClientCall.Reply S)

/-- A step of one of them. -/
abbrev RoutedStep [DecidableEq ι] (beast : Beast) (h : ShortenRequestHandler)
    (shortens : Request → Bool) (others : Handlers D S π)
    (redis : Service RedisCommand RedisCommand.Reply ρ)
    (service : Service D S τ) :
    RoutedWorkers ι π ρ τ → RoutedEvent ι D S → RoutedWorkers ι π ρ τ →
      Prop :=
  WorkerStep (routedApp beast h shortens others)
    (Service.Beside (poolsServe redis) service)

/-- The shortener has not ended the process. -/
def RoutedAlive (now : RoutedWorkers ι π ρ τ) : Prop :=
  ∀ i session requestMsg p,
    now.point i = .handling session requestMsg (.inl p) → ¬ HasExited p

/-- The server with both clients constructed, before its first thread has
called `run()`. -/
def routedServerStart (buffer : Nat → Buffer)
    (redisPoolSize dbPoolSize : UInt64) (s : ρ) (table : UrlTable) (t : τ) :
    RoutedWorkers ι π ρ τ :=
  serverStart buffer ((redisConnectionPool redisPoolSize s,
    ⟨List.range dbPoolSize.toNat, ⟨fun _ => .idle, table⟩⟩), t)

/-- The calls that the shortener has made of the pools and what is behind
them. -/
def clientCalls (es : List (RoutedEvent ι D S)) :
    List (Answer ClientCall ClientCall.Reply) :=
  (es.filterMap WorkerEvent.app).filterMap Answer.onLeft

end Creeper
