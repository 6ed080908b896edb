/-
The entity handler (include/crud_request_handler.h,
src/crud_request_handler.cc).

The handler is a program over the calls of its storage, so the same
translation runs over either one: over the simulated storage as it is,
and over the real one through the layer below (`onDisk`).

# Entity and id

Both are cut out of the URI by a regular expression that begins with the
base URI. A base without any of the characters that mean something in a
regular expression stands for itself, and then the search is computed
here: the first place where the base, a slash and a segment follow one
another. For any other base the search is `std::regex_search`'s own, a
parameter.

# JSON

Parsing and serialising are those of `boost::json`, parameters too.
-/
import Creeper.EntityStorage

namespace Creeper

open Lib

-- ================================================================ the parts

/-- `boost::json::parse` and `boost::json::serialize`. -/
structure Json (J : Type) where
  parse : Str → Option J
  serialize : J → Str

/-- `enum HTTP_Method` -/
inductive HttpMethod
  | post | get | put | delete | invalidMethod
  deriving DecidableEq

/-- `get_method` -/
def getMethod (method : Str) : HttpMethod :=
  if method = "POST".toList then .post
  else if method = "GET".toList then .get
  else if method = "PUT".toList then .put
  else if method = "DELETE".toList then .delete
  else .invalidMethod

/-- `is_valid_integer`, with its `outValue`. -/
def isValidInteger (input : Str) : Option CInt :=
  match stoi input with
  | none => none
  | some (outValue, idx) => if idx = input.length then some outValue else none

/-- `vector_to_json` -/
def vectorToJson (ids : List CInt) : Str :=
  '[' :: List.intercalate [',']
    (ids.map fun id => '"' :: decimalInt id.val ++ ['"']) ++ [']']

/-- `to_lower` -/
def toLower (input : Str) : Str := input.map Char.toLower

/-- `is_json_content_type` -/
def isJsonContentType (req : Request) : Bool :=
  match req.headers.find? fun header =>
      toLower header.name = toLower "Content-Type".toList with
  | none => false
  | some header => header.value = "application/json".toList

/-- The characters that mean something in a regular expression. -/
def regexMetacharacters : Str := "^$\\.*+?()[]\x7b\x7d|".toList

/-- Such a base matches itself and nothing else. -/
def isPlainBase (baseUri : Str) : Bool :=
  baseUri.all fun c => c ∉ regexMetacharacters

/-- What `/([^/]+)` captures at the front of a string. -/
def matchSegment : Str → Option (Str × Str)
  | '/' :: s =>
      let segment := s.takeWhile (· ≠ '/')
      if segment = [] then none
      else some (segment, s.dropWhile (· ≠ '/'))
  | _ => none

/-- What `base/([^/]+)` captures at the front of a string. -/
def matchEntity (base s : Str) : Option Str :=
  if base <+: s then (matchSegment (s.drop base.length)).map Prod.fst
  else none

/-- What `base/[^/]+/([^/]+)` captures at the front of a string. -/
def matchId (base s : Str) : Option Str :=
  if base <+: s then
    match matchSegment (s.drop base.length) with
    | none => none
    | some (_, rest) => (matchSegment rest).map Prod.fst
  else none

/-- A `CrudRequestHandler` without its storage. `regexSearch` is what a
search for a regular expression in a string captures, for the bases that
do not stand for themselves. -/
structure CrudRequestHandler (J : Type) where
  baseUri : Str
  regexSearch : Str → Str → Option Str
  json : Json J

namespace CrudRequestHandler

variable {J : Type} (h : CrudRequestHandler J)

/-- `extract_entity` -/
def extractEntity (uri : Str) : Str :=
  (if isPlainBase h.baseUri then uri.tails.findSome? (matchEntity h.baseUri)
    else h.regexSearch (h.baseUri ++ "/([^/]+)".toList) uri).getD []

/-- `extract_id` -/
def extractId (uri : Str) : Str :=
  (if isPlainBase h.baseUri then uri.tails.findSome? (matchId h.baseUri)
    else h.regexSearch (h.baseUri ++ "/[^/]+/([^/]+)".toList) uri).getD []

-- ============================================================= responses

/-- A stock response with a body of its own. -/
def refusal (code : StockCode) (body : Str) : Response :=
  { stockResponse code with body := body }

/-- A success without headers or body. -/
def success (req : Request) (code : Int) (message : Str) : Response :=
  { version := if req.valid then req.version else httpVersion
    statusCode := code, statusMessage := message }

/-- A success with a JSON body. -/
def successJson (req : Request) (code : Int) (message body : Str) :
    Response :=
  { success req code message with
    headers := [⟨"Content-Type".toList, "application/json".toList⟩]
    body := body }

/-- A 405, which is not the stock one. -/
def idMissing (body : Str) : Response := { statusCode := 405, body := body }

/-- The body that tells a new id. -/
def idBody (id : CInt) : Str :=
  "\x7b\"id\": ".toList ++ decimalInt id.val ++ "\x7d".toList

-- ============================================================ the methods

/-- A program over the storage. -/
abbrev StoreProg : Type := Prog StoreCall StoreCall.Reply Response

/-- `handle_post`, with the answer of `create`. -/
def postAnswer (req : Request) : Option CInt → Response
  | none => refusal .c500 "Failed to create entity".toList
  | some id => successJson req 201 "Created".toList (idBody id)

/-- `handle_post` -/
def handlePost (req : Request) : StoreProg :=
  if isJsonContentType req = false then
    .ret (refusal .c415 "Content-Type must be application/json".toList)
  else
    match h.json.parse req.body with
    | none => .ret (refusal .c400 "Invalid JSON body".toList)
    | some parsed =>
        .call (.create (h.extractEntity req.uri) (h.json.serialize parsed))
          fun result => .ret (postAnswer req result)

/-- `handle_get` for an id, with the answer of `retrieve`. -/
def getAnswer (req : Request) : Option Str → Response
  | none => refusal .c404 "ID not found".toList
  | some stored =>
      match h.json.parse stored with
      | none => refusal .c500 "Stored JSON could not be parsed".toList
      | some parsed =>
          successJson req 200 "OK".toList (h.json.serialize parsed)

/-- `handle_get` without an id, with the answer of `list`. -/
def listAnswer (req : Request) (ids : List CInt) : Response :=
  if ids = [] then refusal .c404 "Entity type not found".toList
  else successJson req 200 "OK".toList (vectorToJson ids)

/-- `handle_get` -/
def handleGet (req : Request) : StoreProg :=
  let id := h.extractId req.uri
  if id ≠ [] then
    match isValidInteger id with
    | none => .ret (refusal .c404 "ID not found".toList)
    | some idInt =>
        .call (.retrieve (h.extractEntity req.uri) idInt) fun result =>
          .ret (h.getAnswer req result)
  else
    .call (.list (h.extractEntity req.uri)) fun ids =>
      .ret (listAnswer req ids)

/-- `handle_put`, with the answers of `retrieve` and `update`. -/
def putAnswer (req : Request) (previous : Option Str) (result : Bool) :
    Response :=
  if result = false then refusal .c500 "PUT failed".toList
  else if previous.isSome then success req 200 "OK".toList
  else success req 201 "Created".toList

/-- `handle_put`, with everything checked. -/
def putStore (req : Request) (idInt : CInt) (parsed : J) : StoreProg :=
  .call (.retrieve (h.extractEntity req.uri) idInt) fun previous =>
    .call (.update (h.extractEntity req.uri) idInt (h.json.serialize parsed))
      fun result => .ret (putAnswer req previous result)

/-- `handle_put` -/
def handlePut (req : Request) : StoreProg :=
  let id := h.extractId req.uri
  if id ≠ [] then
    match isValidInteger id with
    | none => .ret (refusal .c404 "ID invalid".toList)
    | some idInt =>
        if isJsonContentType req = false then
          .ret (refusal .c415 "Content-Type must be application/json".toList)
        else
          match h.json.parse req.body with
          | none => .ret (refusal .c400 "Invalid JSON body".toList)
          | some parsed => h.putStore req idInt parsed
  else .ret (idMissing "ID must be specified for PUT".toList)

/-- `handle_delete`, with the answer of `remove`. -/
def deleteAnswer (req : Request) (result : Bool) : Response :=
  if result = false then refusal .c404 "ID not found".toList
  else success req 204 "No Content".toList

/-- `handle_delete` -/
def handleDelete (req : Request) : StoreProg :=
  let id := h.extractId req.uri
  if id ≠ [] then
    match isValidInteger id with
    | none => .ret (refusal .c404 "Invalid ID".toList)
    | some idInt =>
        .call (.remove (h.extractEntity req.uri) idInt) fun result =>
          .ret (deleteAnswer req result)
  else .ret (idMissing "ID must be specified for DELETE".toList)

/-- `handle_request` -/
def handleRequest (req : Request) : StoreProg :=
  if h.extractEntity req.uri = [] then
    .ret (refusal .c400 "Invalid URI: missing entity".toList)
  else
    match getMethod req.method with
    | .post => h.handlePost req
    | .get => h.handleGet req
    | .put => h.handlePut req
    | .delete => h.handleDelete req
    | .invalidMethod =>
        .ret (refusal .c400
          "Unsupported operation or malformed request".toList)

/-- `handle_request` over the real storage: a program over the file
system, `none` where an exception leaves it. -/
def onDisk (s : RealEntityStorage) (req : Request) : DiskProg Response :=
  (h.handleRequest req).through s.perform

/-- The constructor: it makes the data directory, and the storage, whose
constructor does so again. There is a handler for each request. -/
def construct (s : RealEntityStorage) : DiskProg Unit :=
  .call (.createDirectories s.root) fun made =>
    match made with
    | none => .ret none
    | some _ => s.construct

/-- A request over the real storage, with nothing else going on: its
handler is constructed and handles it. -/
def serveOnDisk (s : RealEntityStorage) (fs : FileSystem) (req : Request)
    (d : Disk) : Disk × Option Response :=
  Prog.eval (fun _ => fs.serve) 0
    ((construct s).bind (Prog.orThrow fun _ => h.onDisk s req)) d

/-- A request handled over the simulated storage. -/
def serveOnSim (req : Request) (storage : SimEntityStorage) :
    SimEntityStorage × Response :=
  Prog.eval (fun _ => SimEntityStorage.serve) 0 (h.handleRequest req) storage

end CrudRequestHandler

end Creeper
