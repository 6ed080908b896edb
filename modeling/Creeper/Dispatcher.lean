/-
The dispatcher (src/request_handler_dispatcher.cc).

`routes_` is a hash table from location paths to shared pointers, so a
value is `none` where the pointer is null, and so is the factory of a
route, whose lookup in the registry may have found nothing. `getHandler`
answers `none` where the code dereferences one of the two.

`routes_[location]` inserts a null pointer under a key the table does
not have, so `get_handler` returns a table too.
-/
import Creeper.Config
import Creeper.Lib.Table

namespace Creeper

open Lib

variable {A H : Type}

/-- An entry of `routes_`: the factory, the location path and the
args. -/
structure Route (A H : Type) where
  factory : Option (Str → A → H)
  uri : Str
  args : A

/-- `routes_` -/
abbrev Routes (A H : Type) := Table Str (Option (Route A H))

/-- `add_route`: only the first handler of a path is added. -/
def addRoute (reg : Registry A H) (routes : Routes A H)
    (location : NginxLocation A) : Routes A H :=
  if (routes.find location.path).isSome then routes
  else routes.emplace location.path
    (some ⟨reg.getHandlerFactory location.handler, location.path,
      location.args⟩)

/-- `add_routes` on an empty table, `none` where the constructor
throws. -/
def addRoutes (reg : Registry A H) (config : NginxConfig) :
    Option (Routes A H) :=
  let result := getLocations reg config
  if result.valid then
    some (result.locations.foldl (addRoute reg) Table.empty)
  else none

/-- One route of the loop of `longest_prefix_match`, with `max_length`
and `longest_match`. -/
def matchRoute (url : Str) (acc : Nat × Str) (routeUri : Str) :
    Nat × Str :=
  if url.take routeUri.length = routeUri then
    if routeUri.length > acc.1 then (routeUri.length, routeUri) else acc
  else acc

/-- `longest_prefix_match` -/
def longestPrefixMatch (routes : Routes A H) (url : Str) : Str :=
  (routes.keys.foldl (matchRoute url) (0, [])).2

/-- `get_handler`: the table after it, and the handler. -/
def getHandler (routes : Routes A H) (req : Request) :
    Routes A H × Option H :=
  let location := longestPrefixMatch routes req.uri
  -- `routes_[location]`
  let routes := routes.emplace location none
  match routes.find location with
  | some (some route) =>
      match route.factory with
      | some factory => (routes, some (factory route.uri route.args))
      | none => (routes, none)
  | _ => (routes, none)

/-- A sequence of requests on one dispatcher: the table after them, and
what each of them got. -/
def getHandlers (routes : Routes A H) : List Request →
    Routes A H × List (Option H)
  | [] => (routes, [])
  | req :: reqs =>
      let first := getHandler routes req
      let rest := getHandlers first.1 reqs
      (rest.1, first.2 :: rest.2)

end Creeper
