/-
The static file handler (src/static_request_handler.cc).

Like the shortener, the handler is a program over the calls it makes,
here on the file system: what it asks about a path, and what it reads.
It asks with the overloads of `boost::filesystem` that throw, so a path
the system cannot look up (a name that is too long, a directory that may
not be searched) is an exception and no answer.
-/
import Creeper.Http
import Creeper.Lib.Prog

namespace Creeper

open Lib

-- ========================================================= the file system

/-- What the handler asks of the file system. -/
inductive FileCall
  | pathExists (path : Str)
  | isRegularFile (path : Str)
  | openFile (path : Str)
  deriving DecidableEq

/-- What each call returns. `pathExists` and `isRegularFile` are `none`
when a `filesystem_error` is thrown; `openFile` reads the stream to its
end, and is `none` when the stream cannot be opened. -/
abbrev FileCall.Reply : FileCall → Type
  | .pathExists _ => Option Bool
  | .isRegularFile _ => Option Bool
  | .openFile _ => Option Str

/-- The path a call is about. -/
def FileCall.path : FileCall → Str
  | .pathExists path => path
  | .isRegularFile path => path
  | .openFile path => path

-- ============================================================= the handler

/-- `CONTENT_TYPE` -/
def contentTypes : List (Str × Str) :=
  [("html".toList, "text/html".toList), ("txt".toList, "text/plain".toList),
    ("pdf".toList, "application/pdf".toList),
    ("zip".toList, "application/zip".toList),
    ("jpeg".toList, "image/jpeg".toList), ("jpg".toList, "image/jpeg".toList),
    ("css".toList, "text/css".toList),
    ("js".toList, "application/javascript".toList)]

/-- A `StaticRequestHandler`. -/
structure StaticRequestHandler where
  baseUri : Str
  rootPath : Str

namespace StaticRequestHandler

variable (h : StaticRequestHandler)

/-- `generate_file_path`, `none` where `substr` throws. -/
def generateFilePath (uri : Str) : Option Str :=
  if h.baseUri.length ≤ uri.length then
    some (h.rootPath ++ uri.drop h.baseUri.length)
  else none

/-- A URI that begins with the location is cut behind it. -/
theorem generateFilePath_of_starts {h : StaticRequestHandler} {uri : Str}
    (hstarts : h.baseUri <+: uri) :
    h.generateFilePath uri
      = some (h.rootPath ++ uri.drop h.baseUri.length) := by
  unfold generateFilePath
  rw [if_pos hstarts.length_le]

/-- What comes after the last dot, nothing if there is none. -/
def fileExtension (path : Str) : Str :=
  if '.' ∈ path then (path.reverse.takeWhile (· ≠ '.')).reverse else []

/-- `get_file_content_type`, which is only called on paths that begin
with the root path. -/
def getFileContentType (filePath : Str) : Str :=
  let pureFilePath := filePath.drop h.rootPath.length
  (contentTypes.lookup (fileExtension pureFilePath)).getD
    "application/octet-stream".toList

/-- The 200 with what the stream gave. -/
def fileResponse (req : Request) (filePath : Str) (content : Option Str) :
    Response :=
  { version := if req.valid then req.version else httpVersion
    statusCode := 200, statusMessage := "OK".toList
    headers := [⟨"Content-Type".toList, h.getFileContentType filePath⟩]
    body := content.getD [] }

/-- `handle_request`, with a path there is something at. A stream that
does not open has its 404 overwritten by what comes after. -/
def handleThere (req : Request) (filePath : Str) :
    Prog FileCall FileCall.Reply (Option Response) :=
  .call (.isRegularFile filePath) fun regular =>
    match regular with
    | none => .ret none
    | some false => .ret (some (stockResponse .c404))
    | some true =>
        .call (.openFile filePath) fun content =>
          .ret (some (h.fileResponse req filePath content))

/-- `handle_request`, `none` where it throws. -/
def handleRequest (req : Request) :
    Prog FileCall FileCall.Reply (Option Response) :=
  match h.generateFilePath req.uri with
  | none => .ret none
  | some filePath =>
      .call (.pathExists filePath) fun there =>
        match there with
        | none => .ret none
        | some false => .ret (some (stockResponse .c404))
        | some true => h.handleThere req filePath

end StaticRequestHandler

end Creeper
