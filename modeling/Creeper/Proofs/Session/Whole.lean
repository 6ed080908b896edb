/-
Which requests the parser takes though they are not whole.

`parse` asks the parser for an error and not whether it is done, and a
complete header with a part of the body is no error, nor is one with a
body in chunks that is cut off where no line is open. `parse_whole_iff`
is exact: what is taken has in it the whole message it says it is, and
this message's body, unless the bytes are a message with an allowed
method that is cut off so (`Truncated`).

The header of a message is known from the bytes: one that is a prefix of
another is no header (`header_unique`), and where the body ends is known
from the header. So a message that is cut off does not have another one
in it that is whole (`not_whole_in_part`).
-/
import Creeper.ReferenceParser

namespace Creeper

open Lib

variable {beast : Beast} {header header' body body' raw : Str}
  {m m' : BeastMessage}

-- ================================================================== headers

/-- A header with nothing after it is read. -/
theorem put_header (hdel : beast.Delimited)
    (hwhole : beast.Whole header body m) : (beast.put header).isSome := by
  rw [← List.append_nil header]
  cases hwhole with
  | wire hwire => exact hdel.partialBody hwire List.nil_prefix
  | @chunked b _ hchunked =>
      by_cases hnil : [] = b.bytes
      · have hput := hdel.oneMessage [] (.chunked hchunked)
        rw [← hnil, List.append_nil] at hput
        rw [hput]
        rfl
      · exact (hdel.partialChunks hchunked List.nil_prefix hnil).mpr
          (Or.inl rfl)

/-- A header that another begins with is the other. -/
theorem header_eq_of_front (hdel : beast.Delimited)
    (hwhole : beast.Whole header body m)
    (hwhole' : beast.Whole header' body' m')
    (hfront : header <+: header') : header = header' := by
  by_contra hne
  have hnone := hdel.needMore hwhole' hfront hne
  have hsome := put_header hdel hwhole
  rw [hnone] at hsome
  cases hsome

/-- Bytes begin with one header. -/
theorem header_unique (hdel : beast.Delimited)
    (hwhole : beast.Whole header body m)
    (hwhole' : beast.Whole header' body' m')
    (hraw : header <+: raw) (hraw' : header' <+: raw) :
    header = header' := by
  rcases List.prefix_or_prefix_of_prefix hraw hraw' with hpre | hpre
  · exact header_eq_of_front hdel hwhole hwhole' hpre
  · exact (header_eq_of_front hdel hwhole' hwhole hpre).symm

/-- A message that is cut off has no whole one in it. -/
theorem not_whole_in_part (hdel : beast.Delimited)
    (hwhole : beast.Whole header body m) {part rest : Str}
    (hpart : part <+: body) (hne : part ≠ body)
    (hwhole' : beast.Whole header' body' m') :
    header ++ part ≠ header' ++ body' ++ rest := by
  intro heq
  rw [List.append_assoc] at heq
  obtain rfl := header_unique hdel hwhole hwhole' (List.prefix_append ..)
    ⟨body' ++ rest, heq.symm⟩
  have hrest := List.append_cancel_left heq
  have hin : body' <+: part := ⟨rest, hrest.symm⟩
  have hends := hdel.bodyEnds hwhole' hwhole (hin.trans hpart)
  subst hends
  exact hne (hpart.eq_of_length_le hin.length_le)

-- ==================================================================== parse

/-- What is taken is what the parser has no error with and the server
allows. -/
theorem parse_valid_iff (beast : Beast) (req : Request) (raw : Str) :
    (RequestParser.parse beast req raw).valid = true
      ↔ ∃ m, beast.put raw = some m ∧ m.Allowed := by
  unfold RequestParser.parse BeastMessage.Allowed
  cases hput : beast.put raw with
  | none => simp
  | some m =>
      by_cases hallowed : m.version ≠ 11 ∨ m.methodString ∉ allowedMethods
      · simp only [if_pos hallowed, Bool.false_eq_true, false_iff]
        intro hex
        obtain ⟨_, heq, hversion, hmethod⟩ := hex
        cases heq
        rcases hallowed with hbad | hbad
        · exact hbad hversion
        · exact hbad hmethod
      · simp only [if_neg hallowed, true_iff]
        rw [not_or, not_not, not_not] at hallowed
        exact ⟨m, rfl, hallowed⟩

/-- A message that the server takes, with all that is read out of it. -/
theorem parse_of_allowed (hput : beast.put raw = some m)
    (hallowed : m.Allowed) (req : Request) :
    RequestParser.parse beast req raw
      = { valid := true, version := getVersion 11, uri := m.target
          method := m.methodString, body := m.body
          headers := req.headers ++ m.fields } := by
  obtain ⟨hversion, hmethod⟩ := hallowed
  have hcond : ¬ (m.version ≠ 11 ∨ m.methodString ∉ allowedMethods) := by
    rw [not_or, not_not, not_not]
    exact ⟨hversion, hmethod⟩
  unfold RequestParser.parse
  rw [hput]
  simp only [if_neg hcond]
  rw [hversion]

/-- Then its body is the body of the request. -/
theorem parse_body (hput : beast.put raw = some m) (hallowed : m.Allowed)
    (req : Request) :
    (RequestParser.parse beast req raw).body = m.body := by
  rw [parse_of_allowed hput hallowed]

-- ============================================================ whole messages

/-- If `parse` takes the bytes, they have the whole message: its header
up to the blank line and its body, which is, if it declares a length, of
that length and the body of the request. -/
def TakesWhole (beast : Beast) (req : Request) (raw : Str) : Prop :=
  (RequestParser.parse beast req raw).valid = true →
    ∃ header body m rest, beast.Whole header body m
      ∧ crlf ++ crlf <:+ header ∧ raw = header ++ body ++ rest
      ∧ ∀ n, declaredLength m.fields = some n →
        body.length = n ∧ (RequestParser.parse beast req raw).body = body

/-- The bytes are the header of a message with an allowed method and a
part of its body, not all of it; of a body in chunks, a part that ends
where no line is open. -/
inductive Truncated (beast : Beast) : Str → Prop
  | body {header body : Str} {m : BeastMessage} {part : Str}
      (hwire : beast.Wire header body m) (hallowed : m.Allowed)
      (hpart : part <+: body) (hne : part ≠ body) :
      Truncated beast (header ++ part)
  | chunks {header : Str} {b : ChunkedBody} {m : BeastMessage} {part : Str}
      (hchunked : beast.Chunked header b m) (hallowed : m.Allowed)
      (hpart : part <+: b.bytes) (hne : part ≠ b.bytes)
      (hcut : b.CutInData part) : Truncated beast (header ++ part)

/-- What is read of a header is allowed if the message is. -/
theorem allowed_iff (hdel : beast.Delimited)
    (hwhole : beast.Whole header body m) {rest : Str}
    (hput : beast.put (header ++ rest) = some m') :
    m'.Allowed ↔ m.Allowed := by
  obtain ⟨hversion, hmethod⟩ := hdel.headerRead hwhole hput
  unfold BeastMessage.Allowed
  rw [hversion, hmethod]

/-- A message that is cut off so is one the parser has no error with. -/
theorem Truncated.accepted (hdel : beast.Delimited)
    (h : Truncated beast raw) :
    ∃ header body m part, beast.Whole header body m ∧ m.Allowed
      ∧ part <+: body ∧ part ≠ body ∧ raw = header ++ part
      ∧ (beast.put raw).isSome := by
  cases h with
  | body hwire hallowed hpart hne =>
      exact ⟨_, _, _, _, .wire hwire, hallowed, hpart, hne, rfl,
        hdel.partialBody hwire hpart⟩
  | chunks hchunked hallowed hpart hne hcut =>
      exact ⟨_, _, _, _, .chunked hchunked, hallowed, hpart, hne, rfl,
        (hdel.partialChunks hchunked hpart hne).mpr hcut⟩

/-- And every message that is cut off and no error is cut off so. -/
theorem truncated_of_accepted (hdel : beast.Delimited)
    (hwhole : beast.Whole header body m) (hallowed : m.Allowed)
    {part : Str} (hpart : part <+: body) (hne : part ≠ body)
    (hput : (beast.put (header ++ part)).isSome) :
    Truncated beast (header ++ part) := by
  cases hwhole with
  | wire hwire => exact .body hwire hallowed hpart hne
  | chunked hchunked =>
      exact .chunks hchunked hallowed hpart hne
        ((hdel.partialChunks hchunked hpart hne).mp hput)

/-- A whole message and more is taken as the message. -/
theorem takesWhole_of_whole (hdel : beast.Delimited)
    (hwhole : beast.Whole header body m) (req : Request) (rest : Str) :
    TakesWhole beast req (header ++ body ++ rest) := by
  intro hvalid
  have hput := hdel.oneMessage rest hwhole
  obtain ⟨m', hput', hallowed⟩ := (parse_valid_iff _ _ _).mp hvalid
  rw [hput] at hput'
  cases hput'
  refine ⟨header, body, m, rest, hwhole, hdel.blankLine hwhole, rfl,
    fun n hn => ?_⟩
  obtain ⟨hlength, hbody⟩ := hdel.contentLength hwhole hn
  rw [parse_body hput hallowed, hbody]
  exact ⟨hlength, rfl⟩

/-- A message that is cut off is not taken as a whole one. -/
theorem not_takesWhole (hdel : beast.Delimited) (req : Request)
    (h : Truncated beast raw) : ¬ TakesWhole beast req raw := by
  obtain ⟨header, body, m, part, hwhole, hallowed, hpart, hne, rfl, hsome⟩ :=
    h.accepted hdel
  obtain ⟨m', hput⟩ := Option.isSome_iff_exists.mp hsome
  intro htakes
  have hallowed' := (allowed_iff hdel hwhole hput).mpr hallowed
  have hvalid := (parse_valid_iff beast req _).mpr ⟨m', hput, hallowed'⟩
  obtain ⟨header', body', m'', rest, hwhole', -, hraw, -⟩ := htakes hvalid
  exact not_whole_in_part hdel hwhole hpart hne hwhole' hraw

/-- A whole message is not cut off. -/
theorem not_truncated (hdel : beast.Delimited)
    (hwhole : beast.Whole header body m) (rest : Str) :
    ¬ Truncated beast (header ++ body ++ rest) := by
  intro htruncated
  obtain ⟨header', body', m', part, hwhole', -, hpart, hne, hraw, -⟩ :=
    htruncated.accepted hdel
  exact not_whole_in_part hdel hwhole' hpart hne hwhole hraw.symm

/-- `parse` takes only whole messages, exactly but for those that are cut
off in a body where the parser has no error. -/
theorem parse_whole_iff (hdel : beast.Delimited) (req : Request)
    (raw : Str) : TakesWhole beast req raw ↔ ¬ Truncated beast raw := by
  constructor
  · intro htakes htruncated
    exact not_takesWhole hdel req htruncated htakes
  · intro hnot hvalid
    obtain ⟨m', hput, hallowed⟩ := (parse_valid_iff _ _ _).mp hvalid
    obtain ⟨header, body, m, hwhole, hraw⟩ := hdel.accepts hput
    rcases hraw with ⟨part, hpart, rfl⟩ | ⟨rest, rfl⟩
    · by_cases hall : part = body
      · subst hall
        have htakes := takesWhole_of_whole hdel hwhole req []
        rw [List.append_nil] at htakes
        exact htakes hvalid
      · -- cut off, and no error
        exact absurd (truncated_of_accepted hdel hwhole
          ((allowed_iff hdel hwhole hput).mp hallowed) hpart hall
          (by rw [hput]; rfl)) hnot
    · exact takesWhole_of_whole hdel hwhole req rest hvalid

-- ==================================================================== a POST

/-- The header of a POST that declares ten bytes. -/
def postHeader : Str :=
  "POST /s HTTP/1.1\r\nContent-Length: 10\r\n\r\n".toList

/-- The POST with its body. -/
def postMessage : BeastMessage :=
  { version := 11, methodString := "POST".toList, target := "/s".toList
    fields := [⟨"Content-Length".toList, "10".toList⟩]
    body := "http://a.b".toList }

theorem postMessage_wire :
    caseless.Wire postHeader "http://a.b".toList postMessage := by
  refine ⟨⟨"POST /s HTTP/1.1".toList, [("Content-Length".toList,
    "10".toList)]⟩, ⟨?_, ?_, ?_, ?_⟩, ?_, ?_, ?_⟩ <;> decide +kernel

theorem parse_whole_post :
    TakesWhole caseless {} (postHeader ++ "http://a.b".toList ++ []) :=
  (parse_whole_iff caseless_delimited {} _).mpr
    (not_truncated caseless_delimited (.wire postMessage_wire) [])

/-- With four of the ten bytes it is taken as a POST of these four. -/
theorem cut_post_taken :
    (RequestParser.parse caseless {} (postHeader ++ "http".toList)).valid
        = true
      ∧ (RequestParser.parse caseless {} (postHeader ++ "http".toList)).body
        = "http".toList
      ∧ ¬ TakesWhole caseless {} (postHeader ++ "http".toList) := by
  have hbytes : RequestParser.parse caseless {}
        (postHeader ++ "http".toList)
      = { method := "POST".toList, uri := "/s".toList
          version := "HTTP/1.1".toList
          headers := [⟨"Content-Length".toList, "10".toList⟩]
          body := "http".toList, valid := true } := by
    decide +kernel
  have hcut : Truncated caseless (postHeader ++ "http".toList) :=
    .body postMessage_wire (by decide) ⟨"://a.b".toList, by decide⟩
      (by decide)
  exact ⟨by rw [hbytes], by rw [hbytes],
    not_takesWhole caseless_delimited {} hcut⟩

end Creeper
