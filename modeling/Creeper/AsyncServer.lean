/-
The server as it runs (src/server.cc, src/session.cc, src/server_main.cc).

`main` starts threads that all call `io_service.run()`. There a thread
either sees an asynchronous operation through, or takes one that is
through and runs its handler: `handle_accept`, `handle_read` or
`handle_write`. What a handler does next it asks for as another
operation, and returns. An exception goes out of the handler, out of
`run()` and into the `catch` of the thread, which ends.

# The io_service

`operations` are the operations asked for whose handlers have not been
taken yet, in no order, and `work` counts those and the handlers that
run. `run()` returns when there is no work. A read puts its bytes into
`data_` before its handler is run, maybe by another thread, and the
handler reads them there.

`remote_endpoint()` throws for a connection that is gone, and a
connection may go at any time. It is called in two places: on the way to
a log line of `handle_accept`, before the session is started, and on the
way to one of `handle_response`, when the response is ready.

What a connection has `sent` is what `async_write` has been called with
on it. The string belongs to `handle_read` and is gone when that returns,
while the operation may still read it; what the bytes on the wire are then
is not modelled.

# The handlers

What becomes of a message between `data_` and the response is a
parameter, code of any kind over calls of any kind: `app` returns the
response, or `none` where an exception leaves it.
-/
import Creeper.Lib.Layers
import Creeper.Session

namespace Creeper

open Lib

variable {C : Type} {R : C → Type} {π σ : Type}

-- ============================================================ the operations

/-- An operation that is through, with what its handler is passed:
`!error`, or the `bytes_transferred` of a read without an error. -/
inductive Completion
  | accepted (session : Nat) (ok : Bool)
  | read (session : Nat) (bytesTransferred : Option Nat)
  | written (session : Nat) (ok : Bool)
  deriving DecidableEq

/-- An operation asked for. -/
inductive Operation
  | accept (session : Nat)
  | readSome (session : Nat)
  | write (session : Nat) (message : Str)
  | ready (completion : Completion)
  deriving DecidableEq

/-- The session it is for. -/
def Completion.session : Completion → Nat
  | .accepted session _ => session
  | .read session _ => session
  | .written session _ => session

/-- The session it is for. -/
def Operation.session : Operation → Nat
  | .accept session => session
  | .readSome session => session
  | .write session _ => session
  | .ready completion => completion.session

/-- What has come in on a connection, a read at a time, and what has been
given to `async_write` for it. -/
structure Connection where
  received : List Str := []
  sent : List Str := []
  deriving DecidableEq

/-- The `io_service`, with the sessions made so far, their arrays `data_`
and their connections. -/
structure IoService where
  operations : List Operation
  work : Nat
  made : Nat
  buffer : Nat → Buffer
  connection : Nat → Connection

namespace IoService

/-- An operation is asked for. -/
def initiate (io : IoService) (operation : Operation) : IoService :=
  { io with operations := io.operations ++ [operation], work := io.work + 1 }

/-- A message is given to `async_write`. -/
def send (io : IoService) (session : Nat) (message : Str) : IoService :=
  { io with
    connection := Function.update io.connection session
      { io.connection session with
        sent := (io.connection session).sent ++ [message] } }

/-- A message comes in, and goes to the front of the array. -/
def receive (io : IoService) (session : Nat) (chunk : Str)
    (h : chunk.length ≤ maxLength) : IoService :=
  { io with
    buffer := Function.update io.buffer session
      ((io.buffer session).fill chunk h)
    connection := Function.update io.connection session
      { io.connection session with
        received := (io.connection session).received ++ [chunk] } }

/-- An operation is seen through. -/
inductive Reacts : IoService → IoService → Prop
  | accepted {io : IoService} {before after : List Operation} {session : Nat}
      {ok : Bool}
      (h : io.operations = before ++ .accept session :: after) :
      Reacts io { io with
        operations := before ++ .ready (.accepted session ok) :: after }
  | read {io : IoService} {before after : List Operation} {session : Nat}
      {chunk : Str}
      (h : io.operations = before ++ .readSome session :: after)
      (hpos : 0 < chunk.length) (hfits : chunk.length ≤ maxLength) :
      Reacts io { io.receive session chunk hfits with
        operations := before
          ++ .ready (.read session (some chunk.length)) :: after }
  | readFailed {io : IoService} {before after : List Operation}
      {session : Nat}
      (h : io.operations = before ++ .readSome session :: after) :
      Reacts io { io with
        operations := before ++ .ready (.read session none) :: after }
  | written {io : IoService} {before after : List Operation} {session : Nat}
      {message : Str} {ok : Bool}
      (h : io.operations = before ++ .write session message :: after) :
      Reacts io { io with
        operations := before ++ .ready (.written session ok) :: after }

end IoService

-- ================================================================= the calls

/-- What a turn in `run()` comes to. -/
inductive Turn
  | reacted
  | handler (completion : Completion)
  | stopped
  deriving DecidableEq

/-- What the threads call, `C` being the calls of the app. -/
inductive ServerCall (C : Type)
  /-- A turn in `io_service.run()`. -/
  | run
  /-- The end of a handler in `run()`, also by an exception. -/
  | workFinished (threw : Bool)
  /-- `make_session_()` -/
  | makeSession
  | asyncAccept (session : Nat)
  | asyncReadSome (session : Nat)
  | asyncWrite (session : Nat) (message : Str)
  /-- `remote_endpoint()` in `handle_accept`. -/
  | acceptedEndpoint (session : Nat)
  /-- `remote_endpoint()` in `handle_response`. -/
  | loggedEndpoint (session : Nat)
  /-- `std::string(data_, bytes_transferred)` -/
  | data (session bytesTransferred : Nat)
  | app (c : C)

/-- What each is answered, an endpoint being there or not. -/
abbrev ServerCall.Reply (R : C → Type) : ServerCall C → Type
  | .run => Turn
  | .workFinished _ => Unit
  | .makeSession => Nat
  | .asyncAccept _ => Unit
  | .asyncReadSome _ => Unit
  | .asyncWrite _ _ => Unit
  | .acceptedEndpoint _ => Bool
  | .loggedEndpoint _ => Bool
  | .data _ _ => Str
  | .app c => R c

/-- The calls as the `io_service` and what the app works on serve
them. -/
inductive ServerServes (below : Service C R σ) :
    Service (ServerCall C) (ServerCall.Reply R) (IoService × σ)
  | reacted {io io' : IoService} {t : σ} (h : io.Reacts io') :
      ServerServes below .run (io, t) .reacted (io', t)
  | handler {io : IoService} {t : σ} {before after : List Operation}
      {completion : Completion}
      (h : io.operations = before ++ .ready completion :: after) :
      ServerServes below .run (io, t) (.handler completion)
        ({ io with operations := before ++ after }, t)
  | stopped {io : IoService} {t : σ} (h : io.work = 0) :
      ServerServes below .run (io, t) .stopped (io, t)
  | workFinished {io : IoService} {t : σ} {threw : Bool} :
      ServerServes below (.workFinished threw) (io, t) ()
        ({ io with work := io.work - 1 }, t)
  | makeSession {io : IoService} {t : σ} :
      ServerServes below .makeSession (io, t) io.made
        ({ io with made := io.made + 1 }, t)
  | asyncAccept {io : IoService} {t : σ} {session : Nat} :
      ServerServes below (.asyncAccept session) (io, t) ()
        (io.initiate (.accept session), t)
  | asyncReadSome {io : IoService} {t : σ} {session : Nat} :
      ServerServes below (.asyncReadSome session) (io, t) ()
        (io.initiate (.readSome session), t)
  | asyncWrite {io : IoService} {t : σ} {session : Nat} {message : Str} :
      ServerServes below (.asyncWrite session message) (io, t) ()
        ((io.send session message).initiate (.write session message), t)
  | acceptedEndpoint {io : IoService} {t : σ} {session : Nat} {there : Bool} :
      ServerServes below (.acceptedEndpoint session) (io, t) there (io, t)
  | loggedEndpoint {io : IoService} {t : σ} {session : Nat} {there : Bool} :
      ServerServes below (.loggedEndpoint session) (io, t) there (io, t)
  | data {io : IoService} {t : σ} {session bytesTransferred : Nat} :
      ServerServes below (.data session bytesTransferred) (io, t)
        ((io.buffer session).data.take bytesTransferred) (io, t)
  | app {io : IoService} {t t' : σ} {c : C} {r : R c} (h : below c t r t') :
      ServerServes below (.app c) (io, t) r (io, t')

-- =============================================================== the threads

/-- What becomes of a message: the response, or `none` where an exception
leaves the code. -/
abbrev App (C : Type) (R : C → Type) (π : Type) : Type :=
  Implementation Str (fun _ => Option Str) C R π

/-- The points of a thread. -/
inductive WorkerPoint (π : Type)
  /-- In `io_service.run()`. -/
  | run
  /-- `handle_accept` without an error. -/
  | handleAccept (session : Nat)
  /-- `sess->start()` -/
  | start (session : Nat)
  /-- `start_accept()`, at `make_session_()`. -/
  | startAccept
  /-- `start_accept()`, at `async_accept`. -/
  | asyncAccept (session : Nat)
  /-- `handle_read` without an error. -/
  | handleRead (session bytesTransferred : Nat)
  /-- In `handle_response`, at the parser, the dispatcher or the
  handler. -/
  | handling (session : Nat) (requestMsg : Str) (p : π)
  /-- In `handle_response`, at the log line of the response. -/
  | logging (session : Nat) (responseMsg : Str)
  /-- In `handle_read`, at `async_write`. -/
  | asyncWrite (session : Nat) (responseMsg : Str)
  /-- `handle_write` without an error. -/
  | handleWrite (session : Nat)
  /-- After a handler. -/
  | finished (threw : Bool)
  /-- An exception has ended the thread. -/
  | exited
  /-- `run()` has returned. -/
  | returned

/-- Where the handler of an operation begins. -/
def Completion.handler : Completion → WorkerPoint π
  | .accepted session true => .handleAccept session
  | .accepted _ false => .startAccept
  | .read session (some bytesTransferred) =>
      .handleRead session bytesTransferred
  | .read _ none => .finished false
  | .written session true => .handleWrite session
  | .written _ false => .finished false

/-- In the app, or on from it once it has ended. -/
def App.proceed (app : App C R π) (session : Nat) (requestMsg : Str)
    (p : π) : WorkerPoint π :=
  match app.result requestMsg p with
  | some (some responseMsg) => .logging session responseMsg
  | some none => .finished true
  | none => .handling session requestMsg p

/-- Where a thread goes on after a turn in `run()`. -/
def Turn.next : Turn → WorkerPoint π
  | .reacted => .run
  | .handler completion => completion.handler
  | .stopped => .returned

/-- A thread of `main`. -/
def workerCode (app : App C R π) :
    Code (ServerCall C) (ServerCall.Reply R) (WorkerPoint π)
  | .run => some ⟨.run, Turn.next⟩
  | .handleAccept session => some ⟨.acceptedEndpoint session, fun
      | true => .start session
      | false => .finished true⟩
  | .start session => some ⟨.asyncReadSome session, fun _ => .startAccept⟩
  | .startAccept => some ⟨.makeSession, fun session => .asyncAccept session⟩
  | .asyncAccept session =>
      some ⟨.asyncAccept session, fun _ => .finished false⟩
  | .handleRead session bytesTransferred =>
      some ⟨.data session bytesTransferred, fun requestMsg =>
        app.proceed session requestMsg (app.enter requestMsg)⟩
  | .handling session requestMsg p =>
      (app.code p).map fun next =>
        ⟨.app next.1, fun r => app.proceed session requestMsg (next.2 r)⟩
  | .logging session responseMsg => some ⟨.loggedEndpoint session, fun
      | true => .asyncWrite session responseMsg
      | false => .finished true⟩
  | .asyncWrite session responseMsg =>
      some ⟨.asyncWrite session responseMsg, fun _ => .finished false⟩
  | .handleWrite session =>
      some ⟨.asyncReadSome session, fun _ => .finished false⟩
  | .finished threw => some ⟨.workFinished threw, fun _ =>
      if threw then .exited else .run⟩
  | .exited => none
  | .returned => none

/-- `NUM_THREADS` -/
def numThreads : Nat := 2

/-- The threads of a server, over what its app works on. -/
abbrev Workers (ι π σ : Type) : Type := Running ι (WorkerPoint π) (IoService × σ)

/-- A step of one thread. -/
abbrev WorkerEvent (ι C : Type) (R : C → Type) : Type :=
  ι × Answer (ServerCall C) (ServerCall.Reply R)

/-- The call of the app that a step is. -/
def WorkerEvent.app {ι : Type} : WorkerEvent ι C R → Option (Answer C R)
  | (_, ⟨.app c, r⟩) => some ⟨c, r⟩
  | _ => none

/-- The threads take their steps in any order. -/
abbrev WorkerStep {ι : Type} [DecidableEq ι] (app : App C R π)
    (below : Service C R σ) :
    Workers ι π σ → WorkerEvent ι C R → Workers ι π σ → Prop :=
  Move (workerCode app) (ServerServes below)

/-- A server that has been constructed, and threads about to call
`run()`. The arrays hold anything. -/
def serverStart {ι : Type} (buffer : Nat → Buffer) (t : σ) : Workers ι π σ :=
  ⟨({ operations := [.accept 0], work := 1, made := 1
      buffer := buffer, connection := fun _ => {} }, t), fun _ => .run⟩

end Creeper
