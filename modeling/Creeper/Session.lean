/-
A session (src/session.cc): one connection, read and answered in turn.

`start` asks for a read; every read that succeeds is parsed on its own,
and its response is handed to one `async_write`; a write that succeeds
asks for the next read. So at any moment one of the two is under way
(`Phase`), and what happens to the session is the completion of it
(`SessionEvent`). Nothing of a read is kept for the next one: the bytes
stay in `data_`, but only the bytes of the last read are looked at.

The dispatcher and the handlers are one function from what they share to
what they share after it and the response, or none where they do not
return: an exception leaves them, or a null pointer is dereferenced. An
exception may also come from `remote_endpoint()`, which the log line of
the response calls, if the connection is gone. Nothing is written then,
and the session gets no further.

What a session has `sent` is what it has handed to `async_write`. The
string is a local of `handle_read` and is gone when that returns; what
the write reads from it after that is not modelled.
-/
import Creeper.Lib.Run
import Creeper.RequestParser

namespace Creeper

open Lib

/-- `MAX_LENGTH` -/
def maxLength : Nat := 1024

/-- The array `data_`. -/
structure Buffer where
  data : Str
  length_eq : data.length = maxLength

/-- A read puts its bytes at the front of the array. -/
def Buffer.fill (buffer : Buffer) (chunk : Str)
    (h : chunk.length ≤ maxLength) : Buffer where
  data := chunk ++ buffer.data.drop chunk.length
  length_eq := by
    rw [List.length_append, List.length_drop, buffer.length_eq]
    omega

/-- Dispatching a request and handling it, `none` where that does not
return. -/
abbrev Handling (σ : Type) := σ → Request → σ × Option Response

/-- The bytes that answer a raw message, if it is answered. -/
def respond {σ : Type} (beast : Beast) (handle : Handling σ) (world : σ)
    (requestMsg : Str) : σ × Option Str :=
  let req := RequestParser.parse beast {} requestMsg
  if req.valid then
    ((handle world req).1, (handle world req).2.map Response.toString)
  else (world, some (stockResponse .c400).toString)

/-- `handle_response`, up to the log line. -/
def handleResponse {σ : Type} (beast : Beast) (handle : Handling σ)
    (world : σ) (buffer : Buffer) (bytesTransferred : Nat) :
    σ × Option Str :=
  respond beast handle world (buffer.data.take bytesTransferred)

/-- Which operation is under way. -/
inductive Phase
  | reading | writing | closed
  deriving DecidableEq

/-- A session, what its handlers share, and the responses it has handed
to `async_write`. -/
structure Session (σ : Type) where
  phase : Phase
  buffer : Buffer
  world : σ
  sent : List Str

/-- The completion of a read or a write; a read that was without an error
is either answered, or an exception leaves `handle_read`. -/
inductive SessionEvent
  | read (chunk : Str)
  | threw (chunk : Str)
  | readError
  | written
  | writeError
  deriving DecidableEq

/-- `handle_read` and `handle_write`. A read that succeeds has from one
byte to as many as fit. `remote_endpoint()` may throw whatever the
handling has come to. -/
inductive Session.Step {σ : Type} (beast : Beast) (handle : Handling σ) :
    Session σ → SessionEvent → Session σ → Prop
  | read {s : Session σ} {chunk : Str} {world : σ} {responseMsg : Str}
      (hphase : s.phase = .reading) (hpos : 0 < chunk.length)
      (hfits : chunk.length ≤ maxLength)
      (hresponse : handleResponse beast handle s.world
        (s.buffer.fill chunk hfits) chunk.length
          = (world, some responseMsg)) :
      Step beast handle s (.read chunk)
        { phase := .writing
          buffer := s.buffer.fill chunk hfits
          world := world
          sent := s.sent ++ [responseMsg] }
  | threw {s : Session σ} {chunk : Str} (hphase : s.phase = .reading)
      (hpos : 0 < chunk.length) (hfits : chunk.length ≤ maxLength) :
      Step beast handle s (.threw chunk)
        { phase := .closed
          buffer := s.buffer.fill chunk hfits
          world := (handleResponse beast handle s.world
            (s.buffer.fill chunk hfits) chunk.length).1
          sent := s.sent }
  | readError {s : Session σ} (hphase : s.phase = .reading) :
      Step beast handle s .readError { s with phase := .closed }
  | written {s : Session σ} (hphase : s.phase = .writing) :
      Step beast handle s .written { s with phase := .reading }
  | writeError {s : Session σ} (hphase : s.phase = .writing) :
      Step beast handle s .writeError { s with phase := .closed }

/-- `start`, over any contents of the array. -/
def Session.start {σ : Type} (buffer : Buffer) (world : σ) : Session σ :=
  { phase := .reading, buffer := buffer, world := world, sent := [] }

/-- The bytes of each read that was answered. -/
def readsOf : List SessionEvent → List Str
  | [] => []
  | .read chunk :: es => chunk :: readsOf es
  | _ :: es => readsOf es

end Creeper
