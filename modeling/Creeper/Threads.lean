/-
What the server is for its clients: a thread for each connection.

There are no such threads in the code. What is written here is what the
handlers of a session come to when they are read one after the other:
the connection is accepted, and then there is a loop that reads,
answers and writes. Any number of these loops run at once over what the
app works on, and each connection is its own thread's.

To write is to give the response to `async_write`, here as there; what is
left of the string when the bytes go out is not modelled.
-/
import Creeper.AsyncServer

namespace Creeper

open Lib

variable {C : Type} {R : C → Type} {π σ : Type}

/-- What the thread of a connection calls. -/
inductive ThreadCall (C : Type)
  | accept (session : Nat)
  | endpoint (session : Nat)
  | read (session : Nat)
  | write (session : Nat) (message : Str)
  | flush (session : Nat)
  | app (c : C)

/-- What it is answered: whether there is a connection, its endpoint, the
bytes of a read, and whether a message could be written. -/
abbrev ThreadCall.Reply (R : C → Type) : ThreadCall C → Type
  | .accept _ => Bool
  | .endpoint _ => Bool
  | .read _ => Option Str
  | .write _ _ => Unit
  | .flush _ => Bool
  | .app c => R c

/-- The calls as the connections and what the app works on serve them. -/
inductive ThreadServes (below : Service C R σ) :
    Service (ThreadCall C) (ThreadCall.Reply R) ((Nat → Connection) × σ)
  | accept {x : (Nat → Connection) × σ} {session : Nat} {ok : Bool} :
      ThreadServes below (.accept session) x ok x
  | endpoint {x : (Nat → Connection) × σ} {session : Nat} {there : Bool} :
      ThreadServes below (.endpoint session) x there x
  | read {connection : Nat → Connection} {t : σ} {session : Nat} {chunk : Str}
      (hpos : 0 < chunk.length) (hfits : chunk.length ≤ maxLength) :
      ThreadServes below (.read session) (connection, t) (some chunk)
        (Function.update connection session
          { connection session with
            received := (connection session).received ++ [chunk] }, t)
  | readFailed {x : (Nat → Connection) × σ} {session : Nat} :
      ThreadServes below (.read session) x none x
  | write {connection : Nat → Connection} {t : σ} {session : Nat}
      {message : Str} :
      ThreadServes below (.write session message) (connection, t) ()
        (Function.update connection session
          { connection session with
            sent := (connection session).sent ++ [message] }, t)
  | flush {x : (Nat → Connection) × σ} {session : Nat} {ok : Bool} :
      ThreadServes below (.flush session) x ok x
  | app {connection : Nat → Connection} {t t' : σ} {c : C} {r : R c}
      (h : below c t r t') :
      ThreadServes below (.app c) (connection, t) r (connection, t')

/-- The points of the thread of a connection. -/
inductive ThreadPoint (π : Type)
  | waiting (session : Nat)
  | accepted (session : Nat)
  | reading (session : Nat)
  | handling (session : Nat) (requestMsg : Str) (p : π)
  | logging (session : Nat) (responseMsg : Str)
  | writing (session : Nat) (responseMsg : Str)
  | flushing (session : Nat)
  | ended

/-- In the app, or on from it once it has ended. -/
def App.goOn (app : App C R π) (session : Nat) (requestMsg : Str) (p : π) :
    ThreadPoint π :=
  match app.result requestMsg p with
  | some (some responseMsg) => .logging session responseMsg
  | some none => .ended
  | none => .handling session requestMsg p

/-- The thread of a connection. -/
def threadCode (app : App C R π) :
    Code (ThreadCall C) (ThreadCall.Reply R) (ThreadPoint π)
  | .waiting session => some ⟨.accept session, fun
      | true => .accepted session
      | false => .ended⟩
  | .accepted session => some ⟨.endpoint session, fun
      | true => .reading session
      | false => .ended⟩
  | .reading session => some ⟨.read session, fun
      | some requestMsg =>
          app.goOn session requestMsg (app.enter requestMsg)
      | none => .ended⟩
  | .handling session requestMsg p =>
      (app.code p).map fun next =>
        ⟨.app next.1, fun r => app.goOn session requestMsg (next.2 r)⟩
  | .logging session responseMsg => some ⟨.endpoint session, fun
      | true => .writing session responseMsg
      | false => .ended⟩
  | .writing session responseMsg =>
      some ⟨.write session responseMsg, fun _ => .flushing session⟩
  | .flushing session => some ⟨.flush session, fun
      | true => .reading session
      | false => .ended⟩
  | .ended => none

/-- The threads of all connections, over what the app works on. -/
abbrev Threads (π σ : Type) : Type :=
  Running Nat (ThreadPoint π) ((Nat → Connection) × σ)

/-- A step of one thread. -/
abbrev ThreadEvent (C : Type) (R : C → Type) : Type :=
  Nat × Answer (ThreadCall C) (ThreadCall.Reply R)

/-- The call of the app that a step is. -/
def ThreadEvent.app : ThreadEvent C R → Option (Answer C R)
  | (_, ⟨.app c, r⟩) => some ⟨c, r⟩
  | _ => none

/-- The threads take their steps in any order. -/
abbrev ThreadStep (app : App C R π) (below : Service C R σ) :
    Threads π σ → ThreadEvent C R → Threads π σ → Prop :=
  Move (threadCode app) (ThreadServes below)

/-- No connection has been accepted. -/
def threadsStart (t : σ) : Threads π σ :=
  ⟨(fun _ => {}, t), .waiting⟩

end Creeper
