/-
What the handlers make of their location statements (`create_from_config`
of the seven handlers), and `get_locations` as it calls them.

# How a call ends

A call returns, or it is cut short. It can throw or exit, as `std::stoi`
and the clients of the shortener do. Or it makes a read that is not
defined: through a null pointer, past the end of a vector, or of the
`front` of an empty string. The model keeps the two apart (`Ended`).

# What is outside

`Surroundings` is what the handlers ask of the process and of the file
system: an environment variable, `boost::filesystem`, and whether the
clients of the shortener get their connections.
-/
import Creeper.Config
import Creeper.Lib.Stoi

namespace Creeper

open Lib

-- ======================================================== how a call ends

/-- How a call ends. -/
inductive Ended (α : Type)
  /-- It returns. -/
  | returned (a : α)
  /-- It throws, or the process exits. -/
  | stopped
  /-- It makes a read that is not defined. -/
  | undefined
  deriving DecidableEq

namespace Ended

variable {α β : Type}

/-- What follows a call follows its return. -/
def bind : Ended α → (α → Ended β) → Ended β
  | .returned a, k => k a
  | .stopped, _ => .stopped
  | .undefined, _ => .undefined

instance : Monad Ended where
  pure := .returned
  bind := bind

@[simp] theorem pure_eq (a : α) : (pure a : Ended α) = .returned a := rfl

@[simp] theorem returned_bind (a : α) (k : α → Ended β) :
    (Ended.returned a >>= k) = k a := rfl

@[simp] theorem stopped_bind (k : α → Ended β) :
    (Ended.stopped >>= k) = .stopped := rfl

@[simp] theorem undefined_bind (k : α → Ended β) :
    (Ended.undefined >>= k) = .undefined := rfl

/-- A read of what has to be there. -/
def read : Option α → Ended α
  | some a => .returned a
  | none => .undefined

@[simp] theorem read_some (a : α) : read (some a) = .returned a := rfl

/-- A call that throws where it has no result. -/
def orStop : Option α → Ended α
  | some a => .returned a
  | none => .stopped

theorem orStop_ne_undefined (a : Option α) : orStop a ≠ .undefined := by
  cases a <;> nofun

/-- Calls are defined where each of them is. -/
theorem bind_ne_undefined {e : Ended α} {k : α → Ended β}
    (he : e ≠ .undefined) (hk : ∀ a, k a ≠ .undefined) :
    (e >>= k) ≠ .undefined := by
  cases e with
  | returned a => exact hk a
  | stopped => nofun
  | undefined => exact absurd rfl he

/-- What returns returns all along. -/
theorem bind_eq_returned {e : Ended α} {k : α → Ended β} {b : β}
    (h : (e >>= k) = .returned b) :
    ∃ a, e = .returned a ∧ k a = .returned b := by
  cases e with
  | returned a => exact ⟨a, rfl, h⟩
  | stopped => cases h
  | undefined => cases h

theorem read_eq_returned {a : Option α} {b : α}
    (h : read a = .returned b) : a = some b := by
  cases a with
  | none => cases h
  | some a =>
      cases h
      rfl

theorem orStop_eq_returned {a : Option α} {b : α}
    (h : orStop a = .returned b) : a = some b := by
  cases a with
  | none => cases h
  | some a =>
      cases h
      rfl

end Ended

-- ============================================================ the arguments

/-- The `IRedisClient` of a shortener: `FakeRedisLocal`, or a
`RealRedisClient` as it is constructed. -/
inductive RedisClient
  | fakeRedisLocal
  | real (redisIp : Str) (redisPort poolSize : CInt)
  deriving DecidableEq

/-- The `IDatabaseClient` of a shortener: `FakeDbLocal`, or a
`RealDatabaseClient` as it is constructed. -/
inductive DatabaseClient
  | fakeDbLocal
  | real (dbHost dbName dbUser dbPass : Str) (poolSize : CInt)
  deriving DecidableEq

/-- `RequestHandlerArgs`, and the classes derived from it. -/
inductive RequestHandlerArgs
  | echo
  | static (rootPath : Str)
  | notFound
  | health
  | crud (dataPath : Str)
  | shorten (redisClient : RedisClient) (dbClient : DatabaseClient)
  | blocking
  deriving DecidableEq

/-- What the handlers ask of the process and of the file system. -/
structure Surroundings where
  /-- `USE_FAKE_SHORTEN_CLIENTS` is set. -/
  useFakeShortenClients : Bool
  /-- `boost::filesystem::path::is_relative` -/
  isRelative : Str → Bool
  /-- `boost::filesystem::exists`, `none` where it throws. -/
  pathExists : Str → Option Bool
  /-- `boost::filesystem::canonical`, `none` where it throws. -/
  canonical : Str → Option Str
  /-- `RealRedisClient` connects; where it does not, it exits. -/
  redisConnects : Str → CInt → CInt → Bool
  /-- `RealDatabaseClient` connects; where it does not, it exits. -/
  databaseConnects : Str → Str → Str → Str → CInt → Bool

-- =========================================================== the statement

/-- `statement->child_block_->` -/
def NginxConfigStatement.derefChildBlock (statement : NginxConfigStatement) :
    Ended NginxConfig :=
  .read statement.childBlock

/-- `tokens_.size() == 2 && tokens_[0] == name` -/
def NginxConfigStatement.isDirective (name : Str)
    (statement : NginxConfigStatement) : Bool :=
  statement.tokens.length = 2 && statement.tokens.head? = some name

/-- `tokens_[1]` -/
def NginxConfigStatement.argument (statement : NginxConfigStatement) :
    Ended Str :=
  .read statement.tokens[1]?

/-- `child_block_->statements_[i]->tokens_[1]` -/
def argumentAt (block : NginxConfig) (i : Nat) : Ended Str := do
  let directive ← .read block[i]?
  directive.argument

-- ============================================================ the handlers

/-- Arguments for a block without statements. -/
def emptyBlockArgs (args : RequestHandlerArgs)
    (statement : NginxConfigStatement) :
    Ended (Option RequestHandlerArgs) := do
  let block ← statement.derefChildBlock
  if block.length ≠ 0 then return none
  else return some args

/-- `EchoRequestHandlerArgs::create_from_config` -/
def EchoRequestHandlerArgs.createFromConfig :
    NginxConfigStatement → Ended (Option RequestHandlerArgs) :=
  emptyBlockArgs .echo

/-- `NotFoundRequestHandlerArgs::create_from_config` -/
def NotFoundRequestHandlerArgs.createFromConfig :
    NginxConfigStatement → Ended (Option RequestHandlerArgs) :=
  emptyBlockArgs .notFound

/-- `HealthRequestHandlerArgs::create_from_config` -/
def HealthRequestHandlerArgs.createFromConfig :
    NginxConfigStatement → Ended (Option RequestHandlerArgs) :=
  emptyBlockArgs .health

/-- `BlockingRequestHandlerArgs::create_from_config` -/
def BlockingRequestHandlerArgs.createFromConfig
    (_statement : NginxConfigStatement) : Ended (Option RequestHandlerArgs) :=
  return some .blocking

section FileSystem

variable (env : Surroundings)

/-- A directory as `canonical` has it, `none` where it does not exist or
`boost::filesystem` throws, which is caught. -/
def canonicalDirectory (path : Str) : Option Str :=
  if env.isRelative path then env.canonical path
  else
    match env.pathExists path with
    | some true => env.canonical path
    | _ => none

/-- Arguments for a block with one directive, a name and a directory. -/
def directoryArgs (name : Str) (make : Str → RequestHandlerArgs)
    (block : NginxConfig) : Ended (Option RequestHandlerArgs) :=
  match block with
  | [directive] =>
      if directive.isDirective name then do
        let path ← directive.argument
        let back ← .read path.getLast?
        if back = '/' ∧ path ≠ "/".toList then return none
        else return (canonicalDirectory env path).map make
      else return none
  | _ => return none

/-- `StaticRequestHandlerArgs::create_from_config` -/
def StaticRequestHandlerArgs.createFromConfig
    (statement : NginxConfigStatement) :
    Ended (Option RequestHandlerArgs) := do
  let block ← statement.derefChildBlock
  directoryArgs env "root".toList .static block

/-- `CrudRequestHandlerArgs::create_from_config`, which looks whether
there is a block. -/
def CrudRequestHandlerArgs.createFromConfig
    (statement : NginxConfigStatement) : Ended (Option RequestHandlerArgs) :=
  match statement.childBlock with
  | none => return none
  | some block => directoryArgs env "data_path".toList .crud block

end FileSystem

-- =========================================================== the shortener

section Shorten

variable (env : Surroundings)

/-- `expected_tokens` -/
def expectedTokens : List Str :=
  ["redis_ip".toList, "redis_port".toList, "db_host".toList,
    "db_name".toList, "db_user".toList, "db_pass".toList,
    "pool_size".toList]

/-- `validate_config_structure` -/
def validateConfigStructure (statement : NginxConfigStatement) :
    Ended Bool := do
  let block ← statement.derefChildBlock
  if block.length ≠ 7 then return false
  else return (block.zip expectedTokens).all fun (directive, expected) =>
    directive.isDirective expected

/-- The arguments with clients that connect. -/
def realClients (statement : NginxConfigStatement) :
    Ended (Option RequestHandlerArgs) := do
  let block ← statement.derefChildBlock
  let redisIp ← argumentAt block 0
  let redisPort ← .orStop (stoi (← argumentAt block 1))
  let dbHost ← argumentAt block 2
  let dbName ← argumentAt block 3
  let dbUser ← argumentAt block 4
  let dbPass ← argumentAt block 5
  let poolSize ← .orStop (stoi (← argumentAt block 6))
  if env.redisConnects redisIp redisPort.1 poolSize.1
      && env.databaseConnects dbHost dbName dbUser dbPass poolSize.1 then
    return some (.shorten (.real redisIp redisPort.1 poolSize.1)
      (.real dbHost dbName dbUser dbPass poolSize.1))
  else .stopped

/-- `ShortenRequestHandlerArgs::create_from_config` -/
def ShortenRequestHandlerArgs.createFromConfig
    (statement : NginxConfigStatement) : Ended (Option RequestHandlerArgs) :=
  if env.useFakeShortenClients then
    return some (.shorten .fakeRedisLocal .fakeDbLocal)
  else do
    let valid ← validateConfigStructure statement
    if valid then realClients env statement
    else return none

end Shorten

-- =========================================================== get_locations

section Locations

variable (env : Surroundings)

/-- `create_from_config_map_` after the seven `REGISTER_HANDLER`. -/
def createFromConfigMap :
    List (Str × (NginxConfigStatement → Ended (Option RequestHandlerArgs))) :=
  [("EchoHandler".toList, EchoRequestHandlerArgs.createFromConfig),
    ("StaticHandler".toList, StaticRequestHandlerArgs.createFromConfig env),
    ("NotFoundHandler".toList, NotFoundRequestHandlerArgs.createFromConfig),
    ("HealthHandler".toList, HealthRequestHandlerArgs.createFromConfig),
    ("CrudHandler".toList, CrudRequestHandlerArgs.createFromConfig env),
    ("ShortenHandler".toList, ShortenRequestHandlerArgs.createFromConfig env),
    ("BlockingHandler".toList, BlockingRequestHandlerArgs.createFromConfig)]

/-- `Registry::get_create_from_config` -/
def getCreateFromConfig (handler : Str) :
    Option (NginxConfigStatement → Ended (Option RequestHandlerArgs)) :=
  (createFromConfigMap env).lookup handler

variable {env} in
theorem mem_createFromConfigMap {handler : Str}
    {create : NginxConfigStatement → Ended (Option RequestHandlerArgs)}
    (h : getCreateFromConfig env handler = some create) :
    (handler, create) ∈ createFromConfigMap env := by
  obtain ⟨before, after, hmap, -⟩ := List.lookup_eq_some_iff.mp h
  rw [hmap]
  exact List.mem_append_right _ (List.mem_cons_self ..)

/-- The loop of `get_locations`, with the locations found so far. -/
def NginxConfig.getLocationsLoop : List NginxConfigStatement →
    List (NginxLocation RequestHandlerArgs) →
    Ended (NginxLocationResult RequestHandlerArgs)
  | [], locations => .returned ⟨true, locations⟩
  | statement :: rest, locations =>
      match statement.tokens with
      | [keyword, path, handler] =>
          if keyword = "location".toList then
            -- `front` and `back` of an empty path
            if path = [] then .undefined
            else if quoted path then .returned .invalid
            else if path.getLast? = some '/' ∧ path ≠ "/".toList then
              .returned .invalid
            else if path.head? ≠ some '/' then .returned .invalid
            else if ∃ existing ∈ locations, path = existing.path then
              .returned .invalid
            else
              match getCreateFromConfig env handler with
              | none => .returned .invalid
              | some createFromConfig => do
                  let args ← createFromConfig statement
                  match args with
                  | none => .returned .invalid
                  | some args =>
                      getLocationsLoop rest
                        (locations ++ [⟨path, handler, args⟩])
          else getLocationsLoop rest locations
      | tokens =>
          if tokens.head? = some "location".toList then .returned .invalid
          else getLocationsLoop rest locations

/-- `NginxConfig::get_locations`, calling the handlers. `getLocations` is
what it returns where they all return. -/
def NginxConfig.getLocations (config : NginxConfig) :
    Ended (NginxLocationResult RequestHandlerArgs) :=
  NginxConfig.getLocationsLoop env config []

end Locations

end Creeper
