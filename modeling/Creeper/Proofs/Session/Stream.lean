/-
Responses one after another on a connection that is kept open.

A client that reads with `readMessage` until the stream is empty gets
back the responses that were sent, whatever their bodies are
(`readMessages_flatMap_toString`): where a response ends is told by its
header block and the length the server computes, so a body that has an
empty line in it, or looks like a response, is still a body. What the
lines of a response may not have in them is `LineSafe`.
-/
import Mathlib.Data.Bool.AllAny
import Creeper.Framing
import Creeper.Lib.Reader

namespace Creeper

open Lib Lib.Http1

-- =============================================================== the reader

/-- Reading a response consumes it. -/
theorem readMessage_length {s rest : Str} {m : ResponseMessage}
    (h : readMessage s = some (m, rest)) : rest.length < s.length := by
  simp only [readMessage, Option.bind_eq_bind, Option.bind_eq_some_iff] at h
  obtain ⟨⟨head, after⟩, hhead, ⟨code, message⟩, -, n, -, hm⟩ := h
  have hshorter := readHead_length hhead
  split at hm
  · cases hm
  · cases hm
    show (after.drop n).length < s.length
    rw [List.length_drop]
    omega

/-- The client's reader. -/
def messageReader : Reader Char ResponseMessage where
  next := readMessage
  shorter _ _ _ h := readMessage_length h

/-- All responses on a stream. -/
def readMessages (stream : Str) : Option (List ResponseMessage) :=
  messageReader.readAll stream

-- ============================================================= the responses

/-- The status message and the headers have no CR and no LF, and no
header name has a colon. -/
structure Response.LineSafe (r : Response) : Prop where
  message : ∀ c ∈ r.statusMessage, c ≠ '\r' ∧ c ≠ '\n'
  name : ∀ f ∈ r.headers, ∀ c ∈ f.name, c ≠ '\r' ∧ c ≠ '\n' ∧ c ≠ ':'
  value : ∀ f ∈ r.headers, ∀ c ∈ f.value, c ≠ '\r' ∧ c ≠ '\n'

/-- Then its lines are framed. -/
theorem Response.LineSafe.framed {r : Response} (hr : r.LineSafe) :
    r.Framed := by
  refine ⟨?_, ?_, ?_⟩
  · apply no_crlf_of_not_mem
    intro hmem
    exact (hr.message _ hmem).1 rfl
  · intro f hf
    apply no_crlf_of_not_mem
    intro hmem
    simp only [fieldLine, List.mem_append, List.mem_cons] at hmem
    rcases hmem with hname | hcolon | hspace | hvalue
    · exact (hr.name f hf _ hname).1 rfl
    · exact absurd hcolon (by decide)
    · exact absurd hspace (by decide)
    · exact (hr.value f hf _ hvalue).1 rfl
  · intro f hf hmem
    exact (hr.name f hf _ hmem).2.2 rfl

/-- A line-safe response reads back in front of anything. -/
theorem Response.LineSafe.readsBack {r : Response} (hr : r.LineSafe) :
    ReadsBack messageReader Response.toString Response.asMessage r := by
  intro rest
  show readMessage (r.toString ++ rest) = some (r.asMessage, rest)
  exact readMessage_toString hr.framed rest

/-- Two line-safe sequences of responses that are the same bytes on the
connection are the same messages. -/
theorem asMessage_injective {rs rs' : List Response}
    (hrs : ∀ r ∈ rs, r.LineSafe) (hrs' : ∀ r ∈ rs', r.LineSafe)
    (h : rs.flatMap Response.toString = rs'.flatMap Response.toString) :
    rs.map Response.asMessage = rs'.map Response.asMessage := by
  have hback : ∀ r ∈ rs, ReadsBack messageReader Response.toString
      Response.asMessage r := fun r hr => (hrs r hr).readsBack
  have hback' : ∀ r ∈ rs', ReadsBack messageReader Response.toString
      Response.asMessage r := fun r hr => (hrs' r hr).readsBack
  exact ReadsBack.injective hback hback' h

/-- The responses of a connection read back as what was sent: code,
message, headers with `Content-Length` after them, and body. -/
theorem readMessages_flatMap_toString {rs : List Response}
    (hsafe : ∀ r ∈ rs, r.LineSafe) :
    readMessages (rs.flatMap Response.toString)
      = some (rs.map Response.asMessage) := by
  apply ReadsBack.readAll
  intro r hr
  exact (hsafe r hr).readsBack

/-- A response whose body is the text of another one, twice, and then an
empty line. -/
def nestedResponse : Response :=
  { statusCode := 200, statusMessage := "OK".toList
    headers := [⟨"Content-Type".toList, "text/plain".toList⟩]
    body := (stockResponse .c404).toString ++ (stockResponse .c404).toString
      ++ crlf ++ crlf }

theorem readMessages_nested :
    readMessages ([nestedResponse, stockResponse .c400].flatMap
        Response.toString)
      = some [nestedResponse.asMessage, (stockResponse .c400).asMessage] := by
  apply readMessages_flatMap_toString
  intro r hr
  have hcases : r = nestedResponse ∨ r = stockResponse .c400 := by
    simpa using hr
  have hplain : ∀ r : Response,
      r.headers = [⟨"Content-Type".toList, "text/plain".toList⟩] →
      (r.statusMessage.all fun c => c ≠ '\r' ∧ c ≠ '\n') = true →
      r.LineSafe := by
    intro r hheaders hmessage
    refine ⟨List.all_iff_forall_prop.mp hmessage, ?_, ?_⟩
    · rw [hheaders, List.forall_mem_singleton]
      exact List.all_iff_forall_prop.mp (by decide)
    · rw [hheaders, List.forall_mem_singleton]
      exact List.all_iff_forall_prop.mp (by decide)
  rcases hcases with rfl | rfl
  · exact hplain _ rfl (by decide)
  · exact hplain _ rfl (by decide)

end Creeper
