/-
The echo handler (src/echo_request_handler.cc).

Its arguments are checked with those of the other handlers
(Creeper.HandlerArgs); neither they nor the base URI are kept.
-/
import Creeper.Http

namespace Creeper

/-- `EchoRequestHandler::handle_request` -/
def EchoRequestHandler.handleRequest (req : Request) : Response :=
  if req.valid then
    { version := if req.valid then req.version else httpVersion
      statusCode := 200, statusMessage := "OK".toList
      headers := [⟨"Content-Type".toList, "text/plain".toList⟩]
      body := req.toString }
  else stockResponse .c400

end Creeper
