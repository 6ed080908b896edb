/-
How a client reads responses off a connection: HTTP/1.1 line framing.

Nothing here is the server's code. `readMessage` takes one response off
a stream: a status line and header lines up to the first empty line,
every line ended by CRLF, then as many bytes of body as the last header,
`Content-Length`, says. It is the reader that `Response.toString` is
judged by: `readMessage_toString` says that a response whose header
lines are `Framed` reads back as itself, whatever its body and whatever
comes after it on the stream.
-/
import Creeper.Http
import Creeper.Lib.Http1

namespace Creeper

open Lib Lib.Http1 Response

-- ============================================================== the reader

/-- A response as a client sees it, `Content-Length` among its
headers. -/
structure ResponseMessage where
  statusCode : Int
  statusMessage : Str
  headers : List Header
  body : Str
  deriving DecidableEq

/-- The code and the message of a status line. -/
def readStatusLine (s : Str) : Option (Int × Str) :=
  if s.take 9 = "HTTP/1.1 ".toList then
    let t := s.drop 9
    match t.dropWhile (· ≠ ' ') with
    | _ :: message =>
        (readDecimalInt (t.takeWhile (· ≠ ' '))).map fun code =>
          (code, message)
    | [] => none
  else none

/-- The length announced by the last field, which has to be
`Content-Length`. -/
def contentLength (fields : List (Str × Str)) : Option Nat :=
  match fields.getLast? with
  | some (name, value) =>
      if name = "Content-Length".toList then readDecimal value else none
  | none => none

/-- One response off a stream, and what follows it. -/
def readMessage (s : Str) : Option (ResponseMessage × Str) := do
  let (head, rest) ← readHead s
  let (code, message) ← readStatusLine head.start
  let n ← contentLength head.fields
  if rest.length < n then none
  else some ({ statusCode := code, statusMessage := message
               headers := head.fields.map fun f => ⟨f.1, f.2⟩
               body := rest.take n }, rest.drop n)

-- ===================================================== what the server sends

namespace Response

variable {r : Response}

/-- The head `to_string` writes. -/
def head (r : Response) : Head :=
  { start := "HTTP/1.1 ".toList
      ++ (decimalInt r.statusCode ++ ' ' :: r.statusMessage)
    fields := r.headers.map (fun f => (f.name, f.value))
      ++ [("Content-Length".toList, decimal r.body.length)] }

theorem head_start (r : Response) :
    r.head.start = "HTTP/1.1 ".toList
      ++ (decimalInt r.statusCode ++ ' ' :: r.statusMessage) := rfl

theorem head_fields (r : Response) :
    r.head.fields = r.headers.map (fun f => (f.name, f.value))
      ++ [("Content-Length".toList, decimal r.body.length)] := rfl

/-- What a client should see of a response. -/
def asMessage (r : Response) : ResponseMessage :=
  { statusCode := r.statusCode, statusMessage := r.statusMessage
    headers := r.headers
      ++ [⟨"Content-Length".toList, decimal r.body.length⟩]
    body := r.body }

/-- No line of the response can be taken for two, and no header name has
the colon that ends it. -/
structure Framed (r : Response) : Prop where
  message_break : ¬ crlf <:+: r.statusMessage
  header_break : ∀ f ∈ r.headers, ¬ crlf <:+: fieldLine (f.name, f.value)
  header_name : ∀ f ∈ r.headers, ':' ∉ f.name

/-- `to_string` is the head, rendered, and the body. -/
theorem toString_eq (r : Response) :
    r.toString = r.head.render ++ r.body := by
  have hline : Header.line
      = fun f => fieldLine (f.name, f.value) ++ ['\r', '\n'] := by
    funext f
    unfold Header.line fieldLine crlf
    simp
  have hlength : "Content-Length: ".toList
      = "Content-Length".toList ++ [':', ' '] := rfl
  unfold Response.toString head Head.render Head.lines renderBlock
  simp only [hline, hlength, crlf, List.flatMap_cons, List.flatMap_append,
    List.map_append, List.map_map, List.flatMap_map, List.append_assoc]
  simp [fieldLine]

end Response

-- =================================================================== breaks

/-- A line without a carriage return in front has its break, if any, in
what the front is put before. -/
theorem crlf_infix_append_iff {front s : Str} (h : '\r' ∉ front) :
    crlf <:+: front ++ s ↔ crlf <:+: s := by
  induction front with
  | nil => rfl
  | cons c front ih =>
      have hc : c ≠ '\r' := fun he => h (by simp [he])
      have hfront := ih fun hm => h (List.mem_cons_of_mem _ hm)
      rw [List.cons_append, List.infix_cons_iff, hfront]
      apply or_iff_right
      intro hbreak
      obtain ⟨t, ht⟩ := hbreak
      exact hc (List.cons.inj ht).1.symm

/-- A string without a carriage return has no break. -/
theorem no_crlf_of_not_mem {s : Str} (h : '\r' ∉ s) : ¬ crlf <:+: s :=
  fun hin => h (hin.subset (by simp [crlf]))

/-- The head of a framed response is clean: the numerals written into it
are no source of breaks. -/
theorem Response.Framed.clean {r : Response} (hr : r.Framed) :
    r.head.Clean := by
  have hfields : ∀ f ∈ r.head.fields,
      (∃ g ∈ r.headers, (g.name, g.value) = f)
        ∨ f = ("Content-Length".toList, decimal r.body.length) := by
    intro f hf
    rw [head_fields] at hf
    rcases List.mem_append.mp hf with hf | hf
    · exact Or.inl (List.mem_map.mp hf)
    · exact Or.inr (List.mem_singleton.mp hf)
  refine ⟨?_, ?_, ?_, ?_⟩
  · rw [head_start]
    exact List.append_ne_nil_of_left_ne_nil (by decide) _
  · have hcode := not_mem_decimalInt (c := '\r') (by decide) (by decide)
      r.statusCode
    have hversion : '\r' ∉ "HTTP/1.1 ".toList := by decide
    rw [head_start]
    refine (crlf_infix_append_iff hversion).not.mpr ?_
    refine (crlf_infix_append_iff hcode).not.mpr ?_
    have hspace : '\r' ∉ [' '] := by decide
    exact (crlf_infix_append_iff hspace).not.mpr hr.message_break
  · intro f hf
    rcases hfields f hf with ⟨g, hg, rfl⟩ | rfl
    · exact hr.header_break g hg
    · have hlength := not_mem_decimal (c := '\r') (by decide) r.body.length
      have hname : '\r' ∉ "Content-Length".toList := by decide
      apply no_crlf_of_not_mem
      simp only [fieldLine, List.mem_append, List.mem_cons, not_or]
      exact ⟨hname, by decide, by decide, hlength⟩
  · intro f hf
    rcases hfields f hf with ⟨g, hg, rfl⟩ | rfl
    · exact hr.header_name g hg
    · show ':' ∉ "Content-Length".toList
      decide

-- =========================================================== the round trip

/-- The status line reads back. -/
theorem readStatusLine_head (r : Response) :
    readStatusLine r.head.start = some (r.statusCode, r.statusMessage) := by
  have hspace : ∀ c ∈ decimalInt r.statusCode, decide (c ≠ ' ') = true := by
    intro c hc
    refine decide_eq_true fun he => ?_
    rw [he] at hc
    exact not_mem_decimalInt (by decide) (by decide) _ hc
  have htake : (decimalInt r.statusCode ++ ' ' :: r.statusMessage).takeWhile
      (· ≠ ' ') = decimalInt r.statusCode := by
    rw [List.takeWhile_append_of_pos hspace]
    simp
  have hdrop : (decimalInt r.statusCode ++ ' ' :: r.statusMessage).dropWhile
      (· ≠ ' ') = ' ' :: r.statusMessage := by
    rw [List.dropWhile_append_of_pos hspace]
    simp
  have hversion : "HTTP/1.1 ".toList.length = 9 := rfl
  unfold readStatusLine
  rw [head_start, List.take_left' hversion, List.drop_left' hversion,
    if_pos rfl]
  simp only [hdrop, htake, readDecimalInt_decimalInt, Option.map_some]

/-- The announced length is the length of the body. -/
theorem contentLength_head (r : Response) :
    contentLength r.head.fields = some r.body.length := by
  unfold contentLength
  rw [head_fields, List.getLast?_concat]
  simp only [if_true, readDecimal_decimal]

/-- A framed response reads back as itself, and the stream goes on after
it. -/
theorem readMessage_toString {r : Response} (hr : r.Framed) (rest : Str) :
    readMessage (r.toString ++ rest) = some (r.asMessage, rest) := by
  have hhead := readHead_render hr.clean (r.body ++ rest)
  unfold readMessage
  rw [r.toString_eq, List.append_assoc, hhead]
  simp only [Option.bind_eq_bind, Option.bind_some, readStatusLine_head,
    contentLength_head]
  rw [if_neg (by simp), List.take_left, List.drop_left, head_fields]
  unfold Response.asMessage
  rw [List.map_append, List.map_map]
  simp only [Function.comp_def, List.map_id', List.map_cons, List.map_nil]

/-- No header a client reads has a break in it. -/
theorem readMessage_header_break {s rest : Str} {m : ResponseMessage}
    (h : readMessage s = some (m, rest)) :
    ∀ f ∈ m.headers, ¬ crlf <:+: fieldLine (f.name, f.value) := by
  simp only [readMessage, Option.bind_eq_bind, Option.bind_eq_some_iff] at h
  obtain ⟨⟨head, after⟩, hhead, ⟨code, message⟩, -, n, -, hm⟩ := h
  split at hm
  · cases hm
  · cases hm
    intro f hf
    obtain ⟨g, hg, rfl⟩ := List.mem_map.mp hf
    exact readHead_field_break hhead g hg

end Creeper
