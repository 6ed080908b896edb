/-
Handlers that look at nothing but the request
(src/health_request_handler.cc, src/not_found_request_handler.cc,
src/blocking_request_handler.cc).

None of them keeps its base URI or its arguments. The blocking handler
sleeps first, `DEFAULT_SLEEP_DURATION_SECONDS`, and its thread is then
where it is for that long: in a server, such a thread is one that makes no
step.
-/
import Creeper.AsyncServer
import Creeper.Http

namespace Creeper

open Lib

/-- `HealthRequestHandler::handle_request` -/
def HealthRequestHandler.handleRequest (req : Request) : Response :=
  { version := if req.valid then req.version else httpVersion
    statusCode := 200, statusMessage := "OK".toList
    headers := [⟨"Content-Type".toList, "text/plain".toList⟩]
    body := "OK".toList }

/-- `NotFoundRequestHandler::handle_request` -/
def NotFoundRequestHandler.handleRequest (req : Request) : Response :=
  { version := if req.valid then req.version else httpVersion
    statusCode := 404, statusMessage := "Not Found".toList
    headers := [⟨"Content-Type".toList, "text/plain".toList⟩]
    body := "404 Not Found".toList }

/-- `BlockingRequestHandler::handle_request`, after the sleep. -/
def BlockingRequestHandler.handleRequest (request : Request) : Response :=
  { version := request.version
    statusCode := 200, statusMessage := "OK".toList
    headers := [⟨"Content-Type".toList, "text/plain".toList⟩]
    body := "Blocking request completed".toList }

/-- Dispatching and handling, where it is a function of the request. -/
def stateless (handle : Request → Response) : Handling Unit :=
  fun _ request => ((), some (handle request))

/-- The answer to a message, where it is a function of it. -/
def answerTo (beast : Beast) (handle : Request → Response)
    (requestMsg : Str) : Str :=
  let req := RequestParser.parse beast {} requestMsg
  if req.valid then (handle req).toString
  else (stockResponse .c400).toString

/-- A session answers so. -/
theorem respond_stateless (beast : Beast) (handle : Request → Response)
    (requestMsg : Str) :
    respond beast (stateless handle) () requestMsg
      = ((), some (answerTo beast handle requestMsg)) := by
  unfold respond answerTo
  simp only
  split <;> rfl

/-- `handle_response` up to its log line, for such handlers: no call is
made on the way. -/
def statelessApp (beast : Beast) (handle : Request → Response) :
    App Empty (fun _ => Empty) Str where
  code _ := none
  enter requestMsg := answerTo beast handle requestMsg
  result _ responseMsg := some (some responseMsg)

/-- There is nothing to call. -/
def noService : Service Empty (fun _ => Empty) Unit := fun _ _ _ _ => False

end Creeper
