/-
The parsed config, the handler registry, and the locations read off the
one with the other (src/config_parser.cc, src/registry.cc).

A `NginxConfig` has one field, its statements, so a block is the list of
its statements and the tree is one inductive type.

The two registry maps hold functions the handlers bring with them. `A`
is what a handler's `create_from_config` makes of a location statement
(`RequestHandlerArgs`), `none` being the null pointer it returns for a
statement it refuses; `H` is the handler its factory makes
(`RequestHandler`).
-/
import Creeper.Http
import Creeper.Lib.Submap

namespace Creeper

open Lib

-- ================================================================ the tree

/-- `NginxConfigStatement`: `tokens_`, and `child_block_` unless it is
null. -/
inductive NginxConfigStatement
  | mk (tokens : List Str) (childBlock : Option (List NginxConfigStatement))

/-- `NginxConfig`: `statements_`. -/
abbrev NginxConfig := List NginxConfigStatement

/-- `tokens_` -/
def NginxConfigStatement.tokens : NginxConfigStatement → List Str
  | .mk tokens _ => tokens

/-- `child_block_` -/
def NginxConfigStatement.childBlock :
    NginxConfigStatement → Option NginxConfig
  | .mk _ childBlock => childBlock

-- ============================================================ the registry

/-- `Registry`: `factory_map_` and `create_from_config_map_`. -/
structure Registry (A H : Type) where
  factoryMap : Str → Option (Str → A → H)
  createFromConfigMap : Str → Option (NginxConfigStatement → Option A)

namespace Registry

variable {A H : Type}

/-- Two empty maps. -/
def empty : Registry A H := ⟨fun _ => none, fun _ => none⟩

/-- `register_handler` -/
def registerHandler (reg : Registry A H) (name : Str)
    (factory : Str → A → H)
    (createFromConfig : NginxConfigStatement → Option A) : Registry A H :=
  { factoryMap := upsert reg.factoryMap name factory
    createFromConfigMap :=
      upsert reg.createFromConfigMap name createFromConfig }

/-- `get_handler_factory` -/
def getHandlerFactory (reg : Registry A H) (name : Str) :
    Option (Str → A → H) :=
  reg.factoryMap name

/-- `get_create_from_config` -/
def getCreateFromConfig (reg : Registry A H) (name : Str) :
    Option (NginxConfigStatement → Option A) :=
  reg.createFromConfigMap name

end Registry

/-- The arguments of a call of `register_handler`. -/
structure Registration (A H : Type) where
  name : Str
  factory : Str → A → H
  createFromConfig : NginxConfigStatement → Option A

/-- The registry after the calls. -/
def Registry.ofCalls {A H : Type} (calls : List (Registration A H)) :
    Registry A H :=
  calls.foldl (fun reg call =>
    reg.registerHandler call.name call.factory call.createFromConfig) .empty

-- =========================================================== get_locations

/-- `NginxLocation` -/
structure NginxLocation (A : Type) where
  path : Str
  handler : Str
  args : A

/-- `NginxLocationResult` -/
structure NginxLocationResult (A : Type) where
  valid : Bool
  locations : List (NginxLocation A)

variable {A H : Type}

/-- The early returns of `get_locations`. -/
def NginxLocationResult.invalid : NginxLocationResult A := ⟨false, []⟩

/-- The path begins and ends with one kind of quote. -/
def quoted (path : Str) : Bool :=
  (path.head? = some '"' && path.getLast? = some '"')
    || (path.head? = some '\'' && path.getLast? = some '\'')

/-- The loop of `get_locations`, with the locations found so far. -/
def getLocationsLoop (reg : Registry A H) :
    NginxConfig → List (NginxLocation A) → NginxLocationResult A
  | [], locations => ⟨true, locations⟩
  | statement :: rest, locations =>
      match statement.tokens with
      | [keyword, path, handler] =>
          if keyword = "location".toList then
            if quoted path then .invalid
            else if path.getLast? = some '/' ∧ path ≠ "/".toList then
              .invalid
            else if path.head? ≠ some '/' then .invalid
            else if ∃ existing ∈ locations, path = existing.path then
              .invalid
            else
              match reg.getCreateFromConfig handler with
              | none => .invalid
              | some createFromConfig =>
                  match createFromConfig statement with
                  | none => .invalid
                  | some args =>
                      getLocationsLoop reg rest
                        (locations ++ [⟨path, handler, args⟩])
          else getLocationsLoop reg rest locations
      | tokens =>
          if tokens.head? = some "location".toList then .invalid
          else getLocationsLoop reg rest locations

/-- `NginxConfig::get_locations` -/
def getLocations (reg : Registry A H) (config : NginxConfig) :
    NginxLocationResult A :=
  getLocationsLoop reg config []

end Creeper
