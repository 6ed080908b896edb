/-
Requests and responses (include/http_header.h, src/http_header.cc).

A `std::string` is the list of its `char`s, `Str`: a byte string is a
list of characters below 256, and nothing in the server looks at more
than equality, length and the ASCII characters it names, so every
theorem about all lists is one about all byte strings.
-/
import Creeper.Lib.Decimal

namespace Creeper

open Lib (decimal decimalInt)

/-- A `std::string`, one entry for each `char`. -/
abbrev Str := List Char

/-- `CRLF` -/
def crlf : Str := ['\r', '\n']

/-- `HTTP_VERSION` -/
def httpVersion : Str := "HTTP/1.1".toList

/-- `struct Header` -/
structure Header where
  name : Str
  value : Str
  deriving DecidableEq

/-- `struct Request`; `valid` is false until the parser says
otherwise. -/
structure Request where
  method : Str := []
  uri : Str := []
  version : Str := []
  headers : List Header := []
  body : Str := []
  valid : Bool := false
  deriving DecidableEq

/-- `struct Response`. The default constructor leaves `status_code`
unset; no handler sends a response without setting it, and the model
starts it at zero. -/
structure Response where
  version : Str := []
  statusCode : Int := 0
  statusMessage : Str := []
  headers : List Header := []
  body : Str := []
  deriving DecidableEq

-- ========================================================= serialisation

/-- One header line of either message, CRLF included. -/
def Header.line (h : Header) : Str :=
  h.name ++ ": ".toList ++ h.value ++ crlf

/-- `Request::to_string`: the request line and the headers; the body is
not written. -/
def Request.toString (r : Request) : Str :=
  r.method ++ " ".toList ++ r.uri ++ " ".toList ++ r.version ++ crlf
    ++ r.headers.flatMap Header.line ++ crlf

/-- `Response::to_string`. The version written is always HTTP/1.1, and
`Content-Length` comes after the headers of the response. -/
def Response.toString (r : Response) : Str :=
  "HTTP/1.1 ".toList ++ decimalInt r.statusCode ++ " ".toList
    ++ r.statusMessage ++ crlf
    ++ r.headers.flatMap Header.line
    ++ "Content-Length: ".toList ++ decimal r.body.length ++ crlf
    ++ crlf ++ r.body

-- ======================================================== stock responses

/-- An entry of `STOCK_RESPONSE`: a plain-text response whose body names
the status. -/
def plainText (code : Int) (message body : Str) : Response :=
  { version := httpVersion, statusCode := code, statusMessage := message
    headers := [⟨"Content-Type".toList, "text/plain".toList⟩]
    body := body }

/-- The keys of `STOCK_RESPONSE`, which are the codes the handlers pass
to `at`. -/
inductive StockCode
  | c400 | c404 | c405 | c415 | c500
  deriving DecidableEq

/-- `STOCK_RESPONSE.at(code)` -/
def stockResponse : StockCode → Response
  | .c400 => plainText 400 "Bad Request".toList "400 Bad Request".toList
  | .c404 => plainText 404 "Not Found".toList "404 Not Found".toList
  | .c405 => plainText 405 "Method Not Allowed".toList
      "405 Method Not Allowed".toList
  | .c415 => plainText 415 "Unsupported Media Type".toList
      "415 Unsupported Media Type".toList
  | .c500 => plainText 500 "Internal Server Error".toList
      "500 Internal Server Error".toList

end Creeper
