/-
What the echo of a request is parsed as.

The echo writes the request line and the header fields, `Content-Length`
among them, and not the body. It is the request in standard form but for
the body (`parse_echo_append`), so a request without a body comes back as
it was, if a header as long is taken, and of any other the echo is the
header alone, which is no whole message (`echo_returns_iff`).
-/
import Creeper.Echo
import Creeper.Proofs.Session.Whole

namespace Creeper

open Lib

variable {beast : Beast} {header body raw : Str} {m : BeastMessage}

-- ============================================================== the request

/-- What `parse` makes of a message that the server takes. -/
def BeastMessage.request (m : BeastMessage) : Request :=
  { method := m.methodString, uri := m.target, version := httpVersion
    headers := m.fields, body := m.body, valid := true }

/-- A message that the server takes is parsed as its request. -/
theorem parse_eq_request (hput : beast.put raw = some m)
    (hallowed : m.Allowed) :
    RequestParser.parse beast {} raw = m.request := by
  have hwritten : getVersion 11 = httpVersion := by decide
  rw [parse_of_allowed hput hallowed, hwritten]
  rfl

/-- A request is written as the header of its message. -/
theorem request_toString (m : BeastMessage) :
    m.request.toString = m.standardHeader := rfl

-- ================================================================= the echo

/-- The body of the response to these bytes. -/
def echoed (beast : Beast) (raw : Str) : Str :=
  (EchoRequestHandler.handleRequest (RequestParser.parse beast {} raw)).body

/-- The echo is a whole message, and parsed again it is the request that
the bytes were. -/
def EchoReturns (beast : Beast) (raw : Str) : Prop :=
  (∃ header body m, beast.Whole header body m
    ∧ echoed beast raw = header ++ body)
  ∧ RequestParser.parse beast {} (echoed beast raw)
    = RequestParser.parse beast {} raw

/-- The echo is the header of the message in standard form. -/
theorem echoed_eq (hput : beast.put raw = some m) (hallowed : m.Allowed) :
    echoed beast raw = m.standardHeader := by
  unfold echoed
  rw [parse_eq_request hput hallowed]
  have hvalid : m.request.valid = true := rfl
  unfold EchoRequestHandler.handleRequest
  rw [if_pos hvalid]
  exact request_toString m

/-- With the body of the message behind it the echo is parsed as the
request that it echoes. -/
theorem parse_echo_append (hstd : beast.Standard)
    (hwire : beast.Wire header body m) (hallowed : m.Allowed)
    (hlimit : beast.WithinLimit m.standardHeader) (rest : Str) :
    RequestParser.parse beast {}
        (echoed beast (header ++ body ++ rest) ++ body)
      = RequestParser.parse beast {} (header ++ body ++ rest) := by
  have hput := hstd.oneMessage rest (.wire hwire)
  have hagain := hstd.oneMessage []
    (.wire (hstd.standardForm hwire hallowed hlimit))
  rw [List.append_nil] at hagain
  rw [echoed_eq hput hallowed, parse_eq_request hagain hallowed,
    parse_eq_request hput hallowed]

/-- A request that has no body is returned. -/
theorem echoReturns_of_nil (hstd : beast.Standard)
    (hwire : beast.Wire header [] m) (hallowed : m.Allowed)
    (hlimit : beast.WithinLimit m.standardHeader) (rest : Str) :
    EchoReturns beast (header ++ [] ++ rest) := by
  have hput := hstd.oneMessage rest (.wire hwire)
  have hparse := parse_echo_append hstd hwire hallowed hlimit rest
  rw [List.append_nil (echoed _ _)] at hparse
  refine ⟨⟨m.standardHeader, [], m,
    .wire (hstd.standardForm hwire hallowed hlimit), ?_⟩, hparse⟩
  rw [echoed_eq hput hallowed, List.append_nil]

/-- The header in standard form is one of a message with the same
body. -/
theorem whole_standardHeader (hstd : beast.Standard)
    (hwhole : beast.Whole header body m) (hallowed : m.Allowed)
    (hlimit : beast.WithinLimit m.standardHeader) :
    ∃ m', beast.Whole m.standardHeader body m' := by
  cases hwhole with
  | wire hwire => exact ⟨m, .wire (hstd.standardForm hwire hallowed hlimit)⟩
  | chunked hchunked =>
      obtain ⟨m', hform⟩ := hstd.standardChunks hchunked hallowed hlimit
      exact ⟨m', .chunked hform⟩

/-- The echo of a request that has a body is no whole message. -/
theorem not_echoReturns (hstd : beast.Standard)
    (hwhole : beast.Whole header body m) (hallowed : m.Allowed)
    (hlimit : beast.WithinLimit m.standardHeader) (hbody : body ≠ [])
    (rest : Str) : ¬ EchoReturns beast (header ++ body ++ rest) := by
  intro hreturns
  obtain ⟨⟨header', body', m', hwhole', hecho⟩, -⟩ := hreturns
  rw [echoed_eq (hstd.oneMessage rest hwhole) hallowed] at hecho
  obtain ⟨m'', hform⟩ := whole_standardHeader hstd hwhole hallowed hlimit
  -- the message of the echo has the header that the echo is
  have hheader : m.standardHeader = header' :=
    header_unique hstd.toDelimited hform hwhole' (List.prefix_refl _)
      ⟨body', hecho.symm⟩
  have hnone : body' = [] := by
    rw [hheader] at hecho
    exact List.self_eq_append_right.mp hecho
  rw [← hheader, hnone] at hwhole'
  have hempty := hstd.bodyEnds hwhole' hform List.nil_prefix
  exact hbody hempty.symm

/-- The echo of a request is no request if the header in standard form is
too long. -/
theorem not_echoReturns_of_limit (hstd : beast.Standard)
    (hwhole : beast.Whole header body m) (hallowed : m.Allowed)
    (hlimit : ¬ beast.WithinLimit m.standardHeader) (rest : Str) :
    ¬ EchoReturns beast (header ++ body ++ rest) := by
  intro hreturns
  have hput := hstd.oneMessage rest hwhole
  have hparse := hreturns.2
  rw [echoed_eq hput hallowed, parse_eq_request hput hallowed] at hparse
  have hinvalid : (RequestParser.parse beast {} m.standardHeader).valid
      = false := by
    unfold RequestParser.parse
    rw [hstd.overLimit hwhole hlimit]
  rw [hparse] at hinvalid
  cases hinvalid

/-- The echo of a request, parsed again, is the request, exactly if
nothing of the message comes after its header and the header in standard
form is not too long. -/
theorem echo_returns_iff (hstd : beast.Standard)
    (hwhole : beast.Whole header body m) (rest : Str)
    (hvalid : (RequestParser.parse beast {}
      (header ++ body ++ rest)).valid = true) :
    EchoReturns beast (header ++ body ++ rest)
      ↔ body = [] ∧ beast.WithinLimit m.standardHeader := by
  obtain ⟨m', hput, hallowed⟩ := (parse_valid_iff _ _ _).mp hvalid
  rw [hstd.oneMessage rest hwhole] at hput
  cases hput
  constructor
  · intro hreturns
    have hlimit : beast.WithinLimit m.standardHeader := by
      by_contra hlimit
      exact not_echoReturns_of_limit hstd hwhole hallowed hlimit rest
        hreturns
    refine ⟨?_, hlimit⟩
    by_contra hbody
    exact not_echoReturns hstd hwhole hallowed hlimit hbody rest hreturns
  · intro h
    obtain ⟨hnil, hlimit⟩ := h
    cases hwhole with
    | wire hwire =>
        subst hnil
        exact echoReturns_of_nil hstd hwire hallowed hlimit rest
    | chunked hchunked => exact absurd hnil (hstd.lastChunk hchunked)

-- ============================================================ two requests

/-- The header of a GET, which is the whole of it. -/
def getHeader : Str := "GET /echo HTTP/1.1\r\nHost: a.b\r\n\r\n".toList

/-- The GET. -/
def getMessage : BeastMessage :=
  { version := 11, methodString := "GET".toList, target := "/echo".toList
    fields := [⟨"Host".toList, "a.b".toList⟩], body := [] }

theorem getMessage_wire : caseless.Wire getHeader [] getMessage := by
  refine ⟨⟨"GET /echo HTTP/1.1".toList, [("Host".toList, "a.b".toList)]⟩,
    ⟨?_, ?_, ?_, ?_⟩, ?_, ?_, ?_⟩ <;> decide +kernel

theorem echo_returns_get :
    EchoReturns caseless (getHeader ++ [] ++ []) :=
  (echo_returns_iff caseless_standard (.wire getMessage_wire) []
    ((parse_valid_iff _ _ _).mpr ⟨getMessage,
      caseless_standard.oneMessage [] (.wire getMessage_wire),
      by decide⟩)).mpr ⟨rfl, trivial⟩

/-- The echo of a POST that declares ten bytes declares ten bytes and has
none. -/
theorem echo_drops_body :
    (RequestParser.parse caseless {}
        (postHeader ++ "http://a.b".toList ++ [])).valid = true
      ∧ caseless.Wire postHeader "http://a.b".toList postMessage
      ∧ echoed caseless (postHeader ++ "http://a.b".toList ++ [])
        = postHeader
      ∧ ¬ EchoReturns caseless
        (postHeader ++ "http://a.b".toList ++ []) := by
  have hput := caseless_standard.oneMessage [] (.wire postMessage_wire)
  have hallowed : postMessage.Allowed := by decide
  have hecho := echoed_eq hput hallowed
  refine ⟨?_, postMessage_wire, ?_, ?_⟩
  · exact (parse_valid_iff _ _ _).mpr ⟨postMessage, hput, hallowed⟩
  · rw [hecho]
    decide +kernel
  · exact not_echoReturns caseless_standard (.wire postMessage_wire)
      hallowed trivial (by decide) []

end Creeper
