/-
The URL shortener (src/shorten_request_handler.cc).

A handler is a program over the calls of its two clients
(`IRedisClient`, `IDatabaseClient`): `Lib.Prog` keeps what it computes
apart from how the stores behave, so the one translation below serves
the sequential theorems, the fault theorems and the interleaved ones.

# The stores

`World` is the Redis map and the database map, and `perform` is one
call on it. The clients report a fault as a missing key (`get`,
`lookup`) or as `false` (`store`), with nothing written; a `set` that
fails ends the process (`RealRedisClient::set`), so it has no fault to
model. Eviction is Redis's own and is an event of a run, not a call.

# The program

`postAttempt` is the body of the attempt loop of
`handle_post_request`, by recursion on the attempts left, and
`postStore` its last part. `getRedirect`, `getLookup` and `getFill` are
`handle_get_request` from the point where the short code has been cut
out of the URI, one definition for each of its calls.
-/
import Creeper.Http
import Creeper.Lib.Prog
import Creeper.Lib.Submap

namespace Creeper

open Lib

-- ============================================================ the clients

/-- The calls of `IRedisClient` and `IDatabaseClient`. -/
inductive Call
  | redisGet (shortCode : Str)
  | redisSet (shortCode longUrl : Str)
  | dbLookup (shortCode : Str)
  | dbStore (shortCode longUrl : Str)
  deriving DecidableEq

/-- What each call returns. -/
abbrev Call.Reply : Call → Type
  | .redisGet _ => Option Str
  | .redisSet _ _ => Unit
  | .dbLookup _ => Option Str
  | .dbStore _ _ => Bool

/-- The two stores. -/
structure World where
  redis : Str → Option Str
  db : Str → Option Str

/-- One call on the stores, `fails` saying whether it meets a transient
error. `store` is an upsert. -/
def perform (fails : Bool) : Server Call Call.Reply World
  | .redisGet code, w => (w, if fails then none else w.redis code)
  | .redisSet code url, w =>
      ({ w with redis := upsert w.redis code url }, ())
  | .dbLookup code, w => (w, if fails then none else w.db code)
  | .dbStore code url, w =>
      if fails then (w, false)
      else ({ w with db := upsert w.db code url }, true)

/-- Which calls of one request fail: the number of the call, counted
from zero, and the call. -/
abbrev Faults := Nat → Call → Bool

/-- No database lookup fails. Stores and Redis gets may. -/
def Faults.AccurateLookups (φ : Faults) : Prop :=
  ∀ n code, φ n (.dbLookup code) = false

/-- The stores under a fault pattern. -/
def faulty (φ : Faults) (n : Nat) : Server Call Call.Reply World :=
  fun c w => perform (φ n c) c w

-- ========================================================== base62_encode

/-- `SHORT_URL_LENGTH` -/
def shortUrlLength : Nat := 6

/-- `BASE62_CHARS` -/
def base62Chars : Str :=
  "0123456789abcdefghijklmnopqrstuvwxyzABCDEFGHIJKLMNOPQRSTUVWXYZ".toList

/-- The digit loop: least significant digit first, nothing for zero. -/
def base62Digits (num : Nat) : Str :=
  if num = 0 then []
  else base62Chars.getD (num % 62) '0' :: base62Digits (num / 62)
termination_by num
decreasing_by omega

/-- `base62_encode` after the hash: pad at the front, cut at the
back. -/
def base62OfHash (num : UInt64) : Str :=
  ((base62Digits num.toNat).leftpad shortUrlLength '0').take shortUrlLength

/-- A `ShortenRequestHandler` and what it takes from its surroundings:
`std::hash<std::string>`, and the page it serves (`none` when the file
cannot be opened). -/
structure ShortenRequestHandler where
  baseUri : Str
  hasher : Str → UInt64
  page : Option Str

namespace ShortenRequestHandler

variable (h : ShortenRequestHandler)

/-- `base62_encode` -/
def base62Encode (url : Str) : Str := base62OfHash (h.hasher url)

-- ==================================================== handle_post_request

/-- `kMaxAttempts` -/
def kMaxAttempts : Nat := 5

/-- `salted_input` -/
def saltedInput (longUrl : Str) (attempt : Nat) : Str :=
  if attempt = 0 then longUrl
  else longUrl ++ "#".toList ++ decimal attempt

/-- `candidate_short` of an attempt. -/
def candidateShort (longUrl : Str) (attempt : Nat) : Str :=
  h.base62Encode (saltedInput longUrl attempt)

/-- The 200 of `handle_post_request`. -/
def postOk (request : Request) (candidate : Str) : Response :=
  { version := request.version, statusCode := 200
    statusMessage := "OK".toList
    headers := [⟨"Content-Type".toList, "text/plain".toList⟩]
    body := candidate }

/-- The 500 for a store that failed. -/
def postStoreFailed : Response :=
  { stockResponse .c500 with body := "Failed to store URL mapping".toList }

@[simp] theorem postStoreFailed_statusCode :
    postStoreFailed.statusCode = 500 := rfl

/-- The 500 after the last attempt. -/
def postExhausted : Response :=
  { stockResponse .c500 with
    body := "Could not generate unique short URL".toList }

@[simp] theorem postExhausted_statusCode :
    postExhausted.statusCode = 500 := rfl

/-- The store of an attempt, and the answer after it. -/
def postStore (request : Request) (candidate : Str) :
    Prog Call Call.Reply Response :=
  .call (.dbStore candidate request.body) fun stored =>
    if stored then .ret (postOk request candidate) else .ret postStoreFailed

/-- The attempt loop with `left` attempts to go: look the candidate up;
reuse it, salt again, or store. -/
def postAttempt (request : Request) : Nat → Prog Call Call.Reply Response
  | 0 => .ret postExhausted
  | left + 1 =>
      let candidate :=
        h.candidateShort request.body (kMaxAttempts - (left + 1))
      .call (.dbLookup candidate) fun existing =>
        match existing with
        | some url =>
            if url = request.body then .ret (postOk request candidate)
            else postAttempt request left
        | none => postStore request candidate

/-- `handle_post_request` -/
def handlePostRequest (request : Request) :
    Prog Call Call.Reply Response :=
  h.postAttempt request kMaxAttempts

-- ===================================================== handle_get_request

/-- The 302 to a long URL. -/
def redirect (request : Request) (longUrl : Str) : Response :=
  { version := request.version, statusCode := 302
    statusMessage := "Found".toList
    headers := [⟨"Location".toList, longUrl⟩] }

/-- The answer for the base URI itself: the page, if it can be read. -/
def servePage (request : Request) : Response :=
  match h.page with
  | some content =>
      { version := request.version, statusCode := 200
        statusMessage := "OK".toList
        headers := [⟨"Content-Type".toList, "text/html".toList⟩]
        body := content }
  | none => stockResponse .c404

/-- Put the database's answer into Redis, then redirect. -/
def getFill (request : Request) (shortUrl longUrl : Str) :
    Prog Call Call.Reply Response :=
  .call (.redisSet shortUrl longUrl) fun _ =>
    .ret (redirect request longUrl)

/-- Redis does not have the code: ask the database. -/
def getLookup (request : Request) (shortUrl : Str) :
    Prog Call Call.Reply Response :=
  .call (.dbLookup shortUrl) fun longUrl =>
    match longUrl with
    | none => .ret (stockResponse .c404)
    | some url => getFill request shortUrl url

/-- Resolve a short code: Redis first. -/
def getRedirect (request : Request) (shortUrl : Str) :
    Prog Call Call.Reply Response :=
  .call (.redisGet shortUrl) fun redisLongUrl =>
    match redisLongUrl with
    | some url => .ret (redirect request url)
    | none => getLookup request shortUrl

/-- `handle_get_request` -/
def handleGetRequest (request : Request) :
    Prog Call Call.Reply Response :=
  if request.uri = h.baseUri then .ret (h.servePage request)
  else if request.uri.length ≠ h.baseUri.length + shortUrlLength + 1 then
    .ret (stockResponse .c404)
  else getRedirect request (request.uri.drop (h.baseUri.length + 1))

-- ========================================================= handle_request

/-- `handle_request` -/
def handleRequest (request : Request) : Prog Call Call.Reply Response :=
  if request.method = "POST".toList then h.handlePostRequest request
  else if request.method = "GET".toList then h.handleGetRequest request
  else .ret (stockResponse .c405)

/-- A request handled alone, its `n`-th call under the `n`-th fault. -/
def serve (φ : Faults) (request : Request) (w : World) :
    World × Response :=
  Prog.eval (faulty φ) 0 (h.handleRequest request) w

end ShortenRequestHandler

-- ======================================================= sequential runs

/-- What happens to the stores between two states of a sequential run: a
request handled to its end, or Redis evicting a key. -/
inductive ShortenEvent
  | request (request : Request) (φ : Faults)
  | evict (shortCode : Str)

/-- The stores after an event. -/
def ShortenRequestHandler.advance (h : ShortenRequestHandler) (w : World) :
    ShortenEvent → World
  | .request request φ => (h.serve φ request w).1
  | .evict code => { w with redis := erase w.redis code }

/-- Sequential runs, any call of any request free to fail. -/
def ShortenRequestHandler.Step (h : ShortenRequestHandler)
    (w : World) (e : ShortenEvent) (w' : World) : Prop :=
  w' = h.advance w e

/-- An event in which no database lookup fails. -/
def ShortenEvent.Accurate : ShortenEvent → Prop
  | .request _ φ => φ.AccurateLookups
  | .evict _ => True

/-- Sequential runs in which database lookups are accurate. -/
def ShortenRequestHandler.AccurateStep (h : ShortenRequestHandler) :
    World → ShortenEvent → World → Prop :=
  Guarded (fun _ e => e.Accurate) h.Step

end Creeper
