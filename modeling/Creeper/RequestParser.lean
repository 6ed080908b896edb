/-
The request parser (src/request_parser.cc).

The parsing itself is Boost.Beast's. `Beast` is what the server uses of
it, and `Beast.Documented` the behaviour it counts on; what the server
adds (which versions and methods it takes, how a message becomes a
`Request`) is `parse`.

# Two kinds of bodies

A message has its body as it is (`Wire`), as long as `Content-Length`
says, or in chunks (`Chunked`). Of a body as it is, any part may be
missing without an error. A body in chunks is read line by line between
the chunks, and a line that is not complete is an error: such a message
is cut off without one only where no line is open.
-/
import Creeper.Http

namespace Creeper

open Lib (decimal readDecimal)

-- =============================================================== messages

/-- What is read out of `request_parser::get`. -/
structure BeastMessage where
  version : Nat
  methodString : Str
  target : Str
  fields : List Header
  body : Str
  deriving DecidableEq

/-- One chunk: the line that has its size, and its data. -/
structure Chunk where
  line : Str
  data : Str

/-- A chunk as it is sent. -/
def Chunk.bytes (c : Chunk) : Str := c.line ++ crlf ++ c.data ++ crlf

/-- A body in chunks, and what is sent after the last of them. -/
structure ChunkedBody where
  chunks : List Chunk
  last : Str

/-- The body as it is sent. -/
def ChunkedBody.bytes (b : ChunkedBody) : Str :=
  b.chunks.flatMap Chunk.bytes ++ b.last

/-- The part ends where no line is open: before the first chunk, or in
the data of one. -/
def ChunkedBody.CutInData (b : ChunkedBody) (part : Str) : Prop :=
  part = [] ∨ ∃ before c after data, b.chunks = before ++ c :: after
    ∧ data <+: c.data
    ∧ part = before.flatMap Chunk.bytes ++ c.line ++ crlf ++ data

/-- What `Content-Length` says, whatever case it is written in. -/
def declaredLength (fields : List Header) : Option Nat :=
  (fields.find? fun f =>
    f.name.map Char.toLower = "content-length".toList).bind fun f =>
      readDecimal f.value

/-- `allowed_methods` -/
def allowedMethods : List Str :=
  ["GET".toList, "POST".toList, "PUT".toList, "DELETE".toList]

/-- A message the server takes. -/
def BeastMessage.Allowed (m : BeastMessage) : Prop :=
  m.version = 11 ∧ m.methodString ∈ allowedMethods

instance (m : BeastMessage) : Decidable m.Allowed :=
  inferInstanceAs (Decidable (_ ∧ _))

/-- The header of a message in standard form: the request line and a line
`name: value` for every field. -/
def BeastMessage.standardHeader (m : BeastMessage) : Str :=
  m.methodString ++ " ".toList ++ m.target ++ " ".toList ++ httpVersion
    ++ crlf
    ++ m.fields.flatMap (fun f => f.name ++ ": ".toList ++ f.value ++ crlf)
    ++ crlf

-- ================================================================== Beast

/-- `request_parser<string_body>` with `eager(true)`. -/
structure Beast where
  /-- A new parser after one `put` of these bytes: its message, or `none`
  if the error code is set. -/
  put : Str → Option BeastMessage
  /-- The header, up to and with its empty line, and the body are a whole
  well-formed message that says this and is not in chunks. -/
  Wire : Str → Str → BeastMessage → Prop
  /-- The header and the chunks are one that is. -/
  Chunked : Str → ChunkedBody → BeastMessage → Prop
  /-- The header is within what the parser takes for one
  (`header_limit`, 8192 bytes unless it is set). -/
  WithinLimit : Str → Prop

/-- The header and what is sent after it are a whole well-formed message
of either kind. -/
inductive Beast.Whole (beast : Beast) :
    (header body : Str) → BeastMessage → Prop
  | wire {header body : Str} {m : BeastMessage}
      (h : beast.Wire header body m) : Whole beast header body m
  | chunked {header : Str} {b : ChunkedBody} {m : BeastMessage}
      (h : beast.Chunked header b m) : Whole beast header b.bytes m

/-- The documented behaviour of `put`. -/
structure Beast.Documented (beast : Beast) : Prop where
  /-- An incomplete header is reported as `need_more`. -/
  needMore : ∀ {header body : Str} {m : BeastMessage} {part : Str},
    beast.Whole header body m → part <+: header → part ≠ header →
    beast.put part = none
  /-- A complete header with a part of the body is no error. -/
  partialBody : ∀ {header body : Str} {m : BeastMessage} {part : Str},
    beast.Wire header body m → part <+: body →
    (beast.put (header ++ part)).isSome
  /-- One message is consumed, and what follows it is not looked at. -/
  oneMessage : ∀ {header body : Str} {m : BeastMessage} (rest : Str),
    beast.Whole header body m →
    beast.put (header ++ body ++ rest) = some m

/-- The documented behaviour of `put`, with what it makes of a message
that is not whole. -/
structure Beast.Delimited (beast : Beast) : Prop extends
    beast.Documented where
  /-- A body in chunks that is cut off is no error exactly where no line
  is open. -/
  partialChunks : ∀ {header : Str} {b : ChunkedBody} {m : BeastMessage}
    {part : Str}, beast.Chunked header b m → part <+: b.bytes →
    part ≠ b.bytes →
    ((beast.put (header ++ part)).isSome ↔ b.CutInData part)
  /-- What the header says is read, however much of the body is there. -/
  headerRead : ∀ {header body rest : Str} {m m' : BeastMessage},
    beast.Whole header body m → beast.put (header ++ rest) = some m' →
    m'.version = m.version ∧ m'.methodString = m.methodString
  /-- There is no error only if the header is complete and what follows
  it goes on as a message. -/
  accepts : ∀ {raw : Str} {m' : BeastMessage}, beast.put raw = some m' →
    ∃ header body m, beast.Whole header body m
      ∧ ((∃ part, part <+: body ∧ raw = header ++ part)
        ∨ ∃ rest, raw = header ++ body ++ rest)
  /-- A header ends with an empty line. -/
  blankLine : ∀ {header body : Str} {m : BeastMessage},
    beast.Whole header body m → crlf ++ crlf <:+ header
  /-- The body of a message that declares its length has that length and
  is the body it says. -/
  contentLength : ∀ {header body : Str} {m : BeastMessage} {n : Nat},
    beast.Whole header body m → declaredLength m.fields = some n →
    body.length = n ∧ m.body = body
  /-- The header tells where the body ends. -/
  bodyEnds : ∀ {header body body' : Str} {m m' : BeastMessage},
    beast.Whole header body m → beast.Whole header body' m' →
    body <+: body' → body = body'

/-- The documented behaviour of `put`, with what it makes of a message
written anew. -/
structure Beast.Standard (beast : Beast) : Prop extends
    beast.Delimited where
  /-- A message says the same with its header in standard form, if that
  is within the limit. -/
  standardForm : ∀ {header body : Str} {m : BeastMessage},
    beast.Wire header body m → m.Allowed →
    beast.WithinLimit m.standardHeader →
    beast.Wire m.standardHeader body m
  /-- One in chunks is still in chunks. -/
  standardChunks : ∀ {header : Str} {b : ChunkedBody} {m : BeastMessage},
    beast.Chunked header b m → m.Allowed →
    beast.WithinLimit m.standardHeader →
    ∃ m', beast.Chunked m.standardHeader b m'
  /-- A body in chunks has at least the last of them. -/
  lastChunk : ∀ {header : Str} {b : ChunkedBody} {m : BeastMessage},
    beast.Chunked header b m → b.bytes ≠ []
  /-- A header that is too long is an error. -/
  overLimit : ∀ {header body : Str} {m : BeastMessage},
    beast.Whole header body m → ¬ beast.WithinLimit m.standardHeader →
    beast.put m.standardHeader = none

-- ================================================================== parse

/-- `get_version` -/
def getVersion (version : Nat) : Str :=
  "HTTP/".toList ++ decimal (version / 10) ++ ".".toList
    ++ decimal (version % 10)

/-- `RequestParser::parse`, as what it makes of `req`. -/
def RequestParser.parse (beast : Beast) (req : Request)
    (rawRequest : Str) : Request :=
  match beast.put rawRequest with
  | none => { req with valid := false }
  | some res =>
      if res.version ≠ 11 ∨ res.methodString ∉ allowedMethods then
        { req with valid := false }
      else
        { valid := true
          version := getVersion res.version
          uri := res.target
          method := res.methodString
          body := res.body
          headers := req.headers ++ res.fields }

end Creeper
