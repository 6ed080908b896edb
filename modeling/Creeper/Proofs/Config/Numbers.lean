/-
Which numbers the server starts with.

`get_port` finds its directive without regard to what is in it but for a
block inside which it finds no port (`getPort_eq`), and then takes of the
word what `std::stoi` takes. `startup_numbers_iff` is exact, for every
config and all surroundings: a server that starts listens on the port
that is written and opens the connections that are written, if and only
if these words are numerals from end to end, the port from 0 to 65535
and the pool size at least 1. Nothing on the way checks any of it.
-/
import Creeper.Proofs.Config.Arguments
import Creeper.Startup

namespace Creeper

open Lib

-- ======================================================= the port directive

/-- A word `get_port` gets a port from that it can return from inside a
block. -/
def GivesPort (word : Str) : Prop := parsePort word ≠ noPort

instance (word : Str) : Decidable (GivesPort word) :=
  inferInstanceAs (Decidable (_ ≠ _))

mutual

/-- The second word of a port directive in a statement. -/
def NginxConfigStatement.portWord : NginxConfigStatement → Option Str
  | .mk tokens none =>
      if tokens.length = 2 ∧ tokens.head? = some "port".toList then
        some (tokens.getD 1 [])
      else none
  | .mk tokens (some block) =>
      if tokens.length = 2 ∧ tokens.head? = some "port".toList then
        some (tokens.getD 1 [])
      else (NginxConfig.portWord block).filter fun word => GivesPort word

/-- The second word of the first port directive, in document order,
passing over the blocks whose own is not usable. -/
def NginxConfig.portWord : List NginxConfigStatement → Option Str
  | [] => none
  | statement :: statements =>
      match statement.portWord with
      | some word => some word
      | none => NginxConfig.portWord statements

end

mutual

/-- What the loop finds in a statement. -/
theorem findPort_eq : ∀ statement : NginxConfigStatement,
    statement.findPort = statement.portWord.map parsePort
  | .mk tokens none => by
      rw [NginxConfigStatement.findPort, NginxConfigStatement.portWord]
      split <;> rfl
  | .mk tokens (some block) => by
      rw [NginxConfigStatement.findPort, NginxConfigStatement.portWord,
        getPort_eq block]
      split
      · rfl
      · cases NginxConfig.portWord block with
        | none => rfl
        | some word =>
            by_cases hgives : GivesPort word
            · have hport : parsePort word ≠ noPort := hgives
              simp [Option.filter, hgives, hport]
            · have hport : parsePort word = noPort := not_not.mp hgives
              simp [Option.filter, hgives, hport]

/-- What `get_port` returns. -/
theorem getPort_eq : ∀ config : List NginxConfigStatement,
    NginxConfig.getPort config
      = ((NginxConfig.portWord config).map parsePort).getD noPort
  | [] => rfl
  | statement :: statements => by
      rw [NginxConfig.getPort, NginxConfig.portWord, findPort_eq statement,
        getPort_eq statements]
      cases statement.portWord <;> rfl

end

/-- The port, where the word is a numeral. -/
theorem parsePort_of_numeral {word : Str} {v : Int}
    (hnumeral : numeral word = some v) (hport : parsePort word ≠ noPort) :
    (parsePort word).val = v := by
  unfold parsePort at hport ⊢
  cases hstoi : stoi word with
  | none =>
      rw [hstoi] at hport
      exact absurd rfl hport
  | some result => exact stoi_of_numeral hnumeral hstoi

-- ============================================================= conversions

theorem endpointPort_toNat {port : CInt} (hlow : 0 ≤ port.val)
    (hhigh : port.val ≤ 65535) :
    ((endpointPort port).toNat : Int) = port.val := by
  show ((BitVec.ofInt 16 port.val).toNat : Int) = port.val
  rw [BitVec.toNat_ofInt]
  omega

theorem toSizeT_toNat {i : CInt} (hlow : 0 ≤ i.val) :
    ((toSizeT i).toNat : Int) = i.val := by
  have hmax : i.val ≤ 2147483647 := i.property.2
  show ((BitVec.ofInt 64 i.val).toNat : Int) = i.val
  rw [BitVec.toNat_ofInt]
  omega

-- ================================================================ locations

/-- A location that is made of a statement. -/
structure MadeOf (env : Surroundings) (statement : NginxConfigStatement)
    (location : NginxLocation RequestHandlerArgs) : Prop where
  words : statement.tokens
    = ["location".toList, location.path, location.handler]
  args : ∃ createFromConfig,
    getCreateFromConfig env location.handler = some createFromConfig
      ∧ createFromConfig statement = .returned (some location.args)

section

variable {env : Surroundings} {config rest : NginxConfig}
  {statement : NginxConfigStatement}
  {locations : List (NginxLocation RequestHandlerArgs)}
  {result : NginxLocationResult RequestHandlerArgs}

/-- The call of a handler in a loop that returns valid locations. -/
theorem callHandler_returned {path handler : Str}
    (h : callHandler env statement rest locations path handler
      = .returned result) (hvalid : result.valid = true) :
    ∃ create args, getCreateFromConfig env handler = some create
      ∧ create statement = .returned (some args)
      ∧ NginxConfig.getLocationsLoop env rest
          (locations ++ [⟨path, handler, args⟩]) = .returned result := by
  have hinvalid : (.returned .invalid : Ended (NginxLocationResult
      RequestHandlerArgs)) ≠ .returned result := by
    intro heq
    cases heq
    cases hvalid
  unfold callHandler at h
  cases hcreate : getCreateFromConfig env handler with
  | none =>
      rw [hcreate] at h
      exact absurd h hinvalid
  | some create =>
      rw [hcreate] at h
      simp only at h
      cases hcall : create statement with
      | stopped => rw [hcall] at h; cases h
      | undefined => rw [hcall] at h; cases h
      | returned args =>
          rw [hcall, Ended.returned_bind] at h
          cases args with
          | none => exact absurd h hinvalid
          | some args => exact ⟨create, args, rfl, hcall, h⟩

/-- A turn of a loop that returns valid locations. -/
theorem turn_returned
    (h : NginxConfig.getLocationsLoop env (statement :: rest) locations
      = .returned result) (hvalid : result.valid = true) :
    (¬ statement.isLocation
        ∧ NginxConfig.getLocationsLoop env rest locations
          = .returned result)
      ∨ statement.isLocation ∧ ∃ location, MadeOf env statement location
        ∧ NginxConfig.getLocationsLoop env rest (locations ++ [location])
          = .returned result := by
  have hinvalid : (.returned .invalid : Ended (NginxLocationResult
      RequestHandlerArgs)) ≠ .returned result := by
    intro heq
    cases heq
    cases hvalid
  by_cases hlocation : statement.isLocation
  · right
    by_cases hlength : statement.tokens.length = 3
    · obtain ⟨path, handler, htokens⟩ := words_of_location hlocation hlength
      by_cases hempty : path = []
      · subst hempty
        rw [turn_empty htokens] at h
        cases h
      · rw [turn_location htokens hempty] at h
        split at h
        · split at h
          · exact absurd h hinvalid
          · obtain ⟨create, args, hcreate, hargs, hrest⟩ :=
              callHandler_returned h hvalid
            exact ⟨hlocation, ⟨path, handler, args⟩,
              ⟨htokens, create, hcreate, hargs⟩, hrest⟩
        · exact absurd h hinvalid
    · rw [turn_length hlocation hlength] at h
      exact absurd h hinvalid
  · rw [turn_other hlocation] at h
    exact Or.inl ⟨hlocation, h⟩

/-- Valid locations are made of the location statements one by one. -/
theorem getLocationsLoop_made (config : NginxConfig)
    (h : NginxConfig.getLocationsLoop env config locations
      = .returned result) (hvalid : result.valid = true) :
    ∃ new, result.locations = locations ++ new
      ∧ List.Forall₂ (MadeOf env) (locationStatements config) new := by
  induction config generalizing locations with
  | nil =>
      cases h
      exact ⟨[], (List.append_nil _).symm, .nil⟩
  | cons statement rest ih =>
      rw [locationStatements_cons]
      rcases turn_returned h hvalid with
        ⟨hother, hrest⟩ | ⟨hlocation, location, hmade, hrest⟩
      · rw [if_neg hother]
        exact ih hrest
      · obtain ⟨new, hnew, hall⟩ := ih hrest
        rw [if_pos hlocation]
        refine ⟨location :: new, ?_, .cons hmade hall⟩
        rw [hnew, List.append_assoc]
        rfl

-- =================================================================== pools

/-- The second word of the seventh directive in the block of a
statement. -/
def NginxConfigStatement.poolWord (statement : NginxConfigStatement) :
    Option Str :=
  statement.childBlock.bind fun block =>
    (block[6]?).bind fun directive => directive.tokens[1]?

/-- A location statement for the shortener. -/
def NginxConfigStatement.IsShorten (statement : NginxConfigStatement) :
    Prop :=
  ∃ path, statement.tokens
    = ["location".toList, path, "ShortenHandler".toList]

/-- The clients that connect, and their pool size. -/
theorem realClients_returned {args : RequestHandlerArgs}
    (h : realClients env statement = .returned (some args)) :
    ∃ word size k, statement.poolWord = some word
      ∧ stoi word = some (size, k)
      ∧ args.poolConnections = [toSizeT size, toSizeT size] := by
  unfold realClients at h
  obtain ⟨block, hblock, h⟩ := Ended.bind_eq_returned h
  obtain ⟨redisIp, -, h⟩ := Ended.bind_eq_returned h
  obtain ⟨portWord, -, h⟩ := Ended.bind_eq_returned h
  obtain ⟨redisPort, -, h⟩ := Ended.bind_eq_returned h
  obtain ⟨dbHost, -, h⟩ := Ended.bind_eq_returned h
  obtain ⟨dbName, -, h⟩ := Ended.bind_eq_returned h
  obtain ⟨dbUser, -, h⟩ := Ended.bind_eq_returned h
  obtain ⟨dbPass, -, h⟩ := Ended.bind_eq_returned h
  obtain ⟨word, hword, h⟩ := Ended.bind_eq_returned h
  obtain ⟨size, hsize, h⟩ := Ended.bind_eq_returned h
  obtain ⟨directive, hdirective, hargument⟩ := Ended.bind_eq_returned hword
  refine ⟨word, size.1, size.2, ?_, Ended.orStop_eq_returned hsize, ?_⟩
  · unfold NginxConfigStatement.poolWord
    rw [Ended.read_eq_returned hblock, Option.bind_some,
      Ended.read_eq_returned hdirective, Option.bind_some]
    exact Ended.read_eq_returned hargument
  · split at h
    · cases h
      rfl
    · cases h

/-- The arguments of the shortener. -/
theorem shorten_returned {args : RequestHandlerArgs}
    (h : ShortenRequestHandlerArgs.createFromConfig env statement
      = .returned (some args)) :
    (env.useFakeShortenClients = true ∧ args.poolConnections = [])
      ∨ env.useFakeShortenClients = false
        ∧ ∃ word size k, statement.poolWord = some word
          ∧ stoi word = some (size, k)
          ∧ args.poolConnections = [toSizeT size, toSizeT size] := by
  unfold ShortenRequestHandlerArgs.createFromConfig at h
  split at h
  · next hfake =>
    cases h
    exact Or.inl ⟨hfake, rfl⟩
  · next hreal =>
    obtain ⟨valid, -, h⟩ := Ended.bind_eq_returned h
    cases valid with
    | true => exact Or.inr ⟨eq_false_of_ne_true hreal, realClients_returned h⟩
    | false => cases h

theorem emptyBlockArgs_returned {args args' : RequestHandlerArgs}
    (h : emptyBlockArgs args statement = .returned (some args')) :
    args' = args := by
  unfold emptyBlockArgs at h
  obtain ⟨block, -, h⟩ := Ended.bind_eq_returned h
  split at h
  · cases h
  · cases h
    rfl

theorem directoryArgs_returned {name : Str}
    {make : Str → RequestHandlerArgs} {block : NginxConfig}
    {args : RequestHandlerArgs}
    (h : directoryArgs env name make block = .returned (some args)) :
    ∃ path, args = make path := by
  unfold directoryArgs at h
  split at h
  · split at h
    · obtain ⟨path, -, h⟩ := Ended.bind_eq_returned h
      obtain ⟨back, -, h⟩ := Ended.bind_eq_returned h
      split at h
      · cases h
      · have hmap : (canonicalDirectory env path).map make = some args :=
          Ended.returned.inj h
        obtain ⟨directory, -, rfl⟩ := Option.map_eq_some_iff.mp hmap
        exact ⟨directory, rfl⟩
    · cases h
  · cases h

/-- No other handler has a pool. -/
theorem poolConnections_of_other {handler : Str}
    {create : NginxConfigStatement → Ended (Option RequestHandlerArgs)}
    {args : RequestHandlerArgs}
    (hcreate : getCreateFromConfig env handler = some create)
    (hother : handler ≠ "ShortenHandler".toList)
    (h : create statement = .returned (some args)) :
    args.poolConnections = [] := by
  have hmem := mem_createFromConfigMap hcreate
  unfold createFromConfigMap at hmem
  simp only [List.mem_cons, Prod.mk.injEq, List.not_mem_nil, or_false]
    at hmem
  rcases hmem with ⟨-, rfl⟩ | ⟨-, rfl⟩ | ⟨-, rfl⟩ | ⟨-, rfl⟩ | ⟨-, rfl⟩
    | ⟨rfl, -⟩ | ⟨-, rfl⟩
  · rw [emptyBlockArgs_returned h]
    rfl
  · obtain ⟨block, -, h⟩ := Ended.bind_eq_returned h
    obtain ⟨path, rfl⟩ := directoryArgs_returned h
    rfl
  · rw [emptyBlockArgs_returned h]
    rfl
  · rw [emptyBlockArgs_returned h]
    rfl
  · unfold CrudRequestHandlerArgs.createFromConfig at h
    split at h
    · cases h
    · obtain ⟨path, rfl⟩ := directoryArgs_returned h
      rfl
  · exact absurd rfl hother
  · cases h
    rfl

/-- A location with pools is made of a statement for the shortener, by
its seventh directive. -/
theorem MadeOf.pools {location : NginxLocation RequestHandlerArgs}
    (h : MadeOf env statement location) :
    location.args.poolConnections = []
      ∨ (statement.IsShorten ∧ env.useFakeShortenClients = false
        ∧ ∃ word size k, statement.poolWord = some word
          ∧ stoi word = some (size, k)
          ∧ location.args.poolConnections
            = [toSizeT size, toSizeT size]) := by
  obtain ⟨create, hcreate, hcall⟩ := h.args
  by_cases hshorten : location.handler = "ShortenHandler".toList
  · rw [hshorten] at hcreate
    have hmap : create = ShortenRequestHandlerArgs.createFromConfig env :=
      (Option.some.inj hcreate).symm
    rw [hmap] at hcall
    rcases shorten_returned hcall with ⟨-, hnone⟩ | hreal
    · exact Or.inl hnone
    · refine Or.inr ⟨⟨location.path, ?_⟩, hreal⟩
      rw [h.words, hshorten]
  · exact Or.inl (poolConnections_of_other hcreate hshorten hcall)

/-- A location that is made of a statement for the shortener has
pools. -/
theorem MadeOf.pools_of_shorten {location : NginxLocation RequestHandlerArgs}
    (h : MadeOf env statement location) (hshorten : statement.IsShorten)
    (hreal : env.useFakeShortenClients = false) :
    ∃ size, location.args.poolConnections
      = [toSizeT size, toSizeT size] := by
  obtain ⟨path, hwords⟩ := hshorten
  have hhandler : location.handler = "ShortenHandler".toList := by
    have htokens := h.words
    rw [hwords] at htokens
    simp only [List.cons.injEq] at htokens
    exact htokens.2.2.1.symm
  obtain ⟨create, hcreate, hcall⟩ := h.args
  rw [hhandler] at hcreate
  have hmap : create = ShortenRequestHandlerArgs.createFromConfig env :=
    (Option.some.inj hcreate).symm
  rw [hmap] at hcall
  rcases shorten_returned hcall with ⟨hfake, -⟩ | ⟨-, _, size, _, -, -, hsize⟩
  · rw [hreal] at hfake
    cases hfake
  · exact ⟨size, hsize⟩

end

-- ================================================================= start-up

/-- What it takes to start: a port to get, that can be bound, and valid
locations. -/
structure Startable (env : Surroundings) (binds : UInt16 → Bool)
    (config : NginxConfig) : Prop where
  port : ∃ word, NginxConfig.portWord config = some word ∧ GivesPort word
    ∧ binds (endpointPort (parsePort word)) = true
  locations : ∃ result, NginxConfig.getLocations env config = .returned result
    ∧ result.valid = true

/-- The pools of a location have the connections that its statement
says, and at least one. -/
def PoolsMean (statement : NginxConfigStatement)
    (location : NginxLocation RequestHandlerArgs) : Prop :=
  ∀ n ∈ location.args.poolConnections, ∃ word, statement.poolWord = some word
    ∧ numeral word = some (n.toNat : Int) ∧ 1 ≤ n.toNat

/-- A server uses the numbers that are written. -/
structure NumbersMean (config : NginxConfig) (server : Server) : Prop where
  port : ∃ word, NginxConfig.portWord config = some word
    ∧ numeral word = some (server.port.toNat : Int)
  pools : List.Forall₂ PoolsMean (locationStatements config) server.locations

/-- The numbers that are written are numerals from end to end, and in
range. -/
structure NumbersWhole (env : Surroundings) (config : NginxConfig) :
    Prop where
  port : ∃ word v, NginxConfig.portWord config = some word
    ∧ numeral word = some v ∧ 0 ≤ v ∧ v ≤ 65535
  pools : env.useFakeShortenClients = false → ∀ statement ∈ config,
    statement.IsShorten → ∃ word v, statement.poolWord = some word
      ∧ numeral word = some v ∧ 1 ≤ v

section

variable {env : Surroundings} {binds : UInt16 → Bool} {config : NginxConfig}
  {server : Server}

/-- The port that `get_port` returns, if it is one. -/
theorem getPort_givesPort (h : NginxConfig.getPort config ≠ noPort) :
    ∃ word, NginxConfig.portWord config = some word ∧ GivesPort word
      ∧ NginxConfig.getPort config = parsePort word := by
  rw [getPort_eq] at h ⊢
  cases hword : NginxConfig.portWord config with
  | none =>
      rw [hword] at h
      exact absurd rfl h
  | some word =>
      rw [hword] at h
      exact ⟨word, rfl, h, rfl⟩

/-- What a server that starts has. -/
theorem startServer_returned
    (h : startServer env binds config = .returned server) :
    ∃ word result, NginxConfig.portWord config = some word ∧ GivesPort word
      ∧ binds (endpointPort (parsePort word)) = true
      ∧ NginxConfig.getLocations env config = .returned result
      ∧ result.valid = true
      ∧ server = ⟨endpointPort (parsePort word), result.locations⟩ := by
  unfold startServer at h
  split at h
  · cases h
  · next hport =>
    obtain ⟨word, hword, hgives, hget⟩ := getPort_givesPort hport
    rw [hget] at h
    split at h
    · next hbinds =>
      obtain ⟨result, hresult, h⟩ := Ended.bind_eq_returned h
      split at h
      · next hvalid =>
        cases h
        exact ⟨word, result, hword, hgives, hbinds, hresult, hvalid, rfl⟩
      · cases h
    · cases h

/-- A server starts where it can. -/
theorem exists_startServer_iff :
    (∃ server, startServer env binds config = .returned server)
      ↔ Startable env binds config := by
  constructor
  · intro hex
    obtain ⟨server, h⟩ := hex
    obtain ⟨word, result, hword, hgives, hbinds, hresult, hvalid, -⟩ :=
      startServer_returned h
    exact ⟨⟨word, hword, hgives, hbinds⟩, result, hresult, hvalid⟩
  · intro hex
    obtain ⟨⟨word, hword, hgives, hbinds⟩, result, hresult, hvalid⟩ := hex
    have hget : NginxConfig.getPort config = parsePort word := by
      rw [getPort_eq, hword]
      rfl
    have hport : ¬ parsePort word = noPort := hgives
    refine ⟨⟨endpointPort (parsePort word), result.locations⟩, ?_⟩
    unfold startServer
    rw [hget, if_neg hport, if_pos hbinds, hresult, Ended.returned_bind,
      if_pos hvalid]
    rfl

/-- The port listened on is the one that is written, where that is a
port. -/
theorem portMeans_iff {word : Str} (hgives : GivesPort word) :
    numeral word = some ((endpointPort (parsePort word)).toNat : Int)
      ↔ ∃ v, numeral word = some v ∧ 0 ≤ v ∧ v ≤ 65535 := by
  constructor
  · intro hnumeral
    have hlt := (endpointPort (parsePort word)).toNat_lt
    exact ⟨_, hnumeral, Int.natCast_nonneg _, by omega⟩
  · intro hex
    obtain ⟨v, hnumeral, hlow, hhigh⟩ := hex
    have hval := parsePort_of_numeral hnumeral hgives
    rw [endpointPort_toNat (by omega) (by omega), hval]
    exact hnumeral

theorem NginxConfigStatement.IsShorten.isLocation
    {statement : NginxConfigStatement} (h : statement.IsShorten) :
    statement.isLocation := by
  obtain ⟨path, htokens⟩ := h
  unfold NginxConfigStatement.isLocation
  rw [htokens]
  rfl

/-- The pools of a location have the connections its statement says,
where it says a number of connections. -/
theorem MadeOf.poolsMean_iff {statement : NginxConfigStatement}
    {location : NginxLocation RequestHandlerArgs}
    (h : MadeOf env statement location) :
    PoolsMean statement location
      ↔ (env.useFakeShortenClients = false → statement.IsShorten →
        ∃ word v, statement.poolWord = some word ∧ numeral word = some v
          ∧ 1 ≤ v) := by
  constructor
  · intro hmean hreal hshorten
    obtain ⟨size, hsize⟩ := h.pools_of_shorten hshorten hreal
    have hmem : toSizeT size ∈ location.args.poolConnections := by
      rw [hsize]
      exact List.mem_cons_self ..
    obtain ⟨word, hword, hnumeral, hone⟩ := hmean _ hmem
    exact ⟨word, _, hword, hnumeral, by omega⟩
  · intro hwhole n hn
    rcases h.pools with
      hnone | ⟨hshorten, hreal, word, size, k, hword, hstoi, hsize⟩
    · rw [hnone] at hn
      cases hn
    · obtain ⟨word', v, hword', hnumeral, hone⟩ := hwhole hreal hshorten
      obtain rfl : word = word' := Option.some.inj (hword.symm.trans hword')
      have hval : size.val = v := stoi_of_numeral hnumeral hstoi
      have htoNat := toSizeT_toNat (i := size) (by omega)
      obtain rfl : n = toSizeT size := by
        rw [hsize] at hn
        simpa using hn
      refine ⟨word, hword, ?_, by omega⟩
      rw [htoNat, hval]
      exact hnumeral

/-- Two relations between lists, where the one comes down to a property
of what is on the left wherever the other holds. -/
theorem forall₂_iff_forall {α β : Type} {R S : α → β → Prop} {P : α → Prop}
    {xs : List α} {ys : List β} (h : List.Forall₂ R xs ys)
    (hiff : ∀ x y, R x y → (S x y ↔ P x)) :
    List.Forall₂ S xs ys ↔ ∀ x ∈ xs, P x := by
  induction h with
  | nil => simp
  | cons hR _ ih =>
      rw [List.forall₂_cons, List.forall_mem_cons, hiff _ _ hR, ih]

/-- A server that starts uses the numbers that are written just where
they are whole. -/
theorem numbersMean_iff
    (h : startServer env binds config = .returned server) :
    NumbersMean config server ↔ NumbersWhole env config := by
  obtain ⟨word, result, hword, hgives, -, hresult, hvalid, rfl⟩ :=
    startServer_returned h
  obtain ⟨new, hnew, hmade⟩ := getLocationsLoop_made config hresult hvalid
  rw [List.nil_append] at hnew
  have hport := portMeans_iff hgives
  have hpools := forall₂_iff_forall hmade
    fun statement location hmade => hmade.poolsMean_iff
  rw [← hnew] at hpools
  constructor
  · intro hex
    obtain ⟨⟨word', hword', hnumeral⟩, hmean⟩ := hex
    obtain rfl : word = word' := Option.some.inj (hword.symm.trans hword')
    obtain ⟨v, hv, hlow, hhigh⟩ := hport.mp hnumeral
    refine ⟨⟨word, v, hword, hv, hlow, hhigh⟩, ?_⟩
    intro hreal statement hmem hshorten
    refine hpools.mp hmean statement ?_ hreal hshorten
    exact List.mem_filter.mpr ⟨hmem, decide_eq_true hshorten.isLocation⟩
  · intro hex
    obtain ⟨⟨word', v, hword', hv, hlow, hhigh⟩, hwhole⟩ := hex
    obtain rfl : word = word' := Option.some.inj (hword.symm.trans hword')
    refine ⟨⟨word, hword, hport.mpr ⟨v, hv, hlow, hhigh⟩⟩, hpools.mpr ?_⟩
    intro statement hmem hreal hshorten
    exact hwhole hreal statement (List.mem_of_mem_filter hmem) hshorten

/-- The numbers of every server that starts are the ones that are
written, if and only if these are whole where a server can start. -/
theorem startup_numbers_iff (env : Surroundings) (binds : UInt16 → Bool)
    (config : NginxConfig) :
    (∀ server, startServer env binds config = .returned server →
        NumbersMean config server)
      ↔ (Startable env binds config → NumbersWhole env config) := by
  rw [← exists_startServer_iff]
  constructor
  · intro h hex
    obtain ⟨server, hserver⟩ := hex
    exact (numbersMean_iff hserver).mp (h server hserver)
  · intro h server hserver
    exact (numbersMean_iff hserver).mpr (h ⟨server, hserver⟩)

end

/-- Surroundings in which all clients connect. -/
def connected : Surroundings where
  useFakeShortenClients := false
  isRelative := fun _ => true
  pathExists := fun _ => some true
  canonical := some
  redisConnects := fun _ _ _ => true
  databaseConnects := fun _ _ _ _ _ => true

/-- A config with a port and a shortener. -/
def shortenConfig (port poolSize : String) : NginxConfig :=
  let directive (name value : String) : NginxConfigStatement :=
    .mk [name.toList, value.toList] none
  [directive "port" port,
    .mk ["location".toList, "/s".toList, "ShortenHandler".toList]
      (some [directive "redis_ip" "localhost", directive "redis_port" "6379",
        directive "db_host" "localhost", directive "db_name" "urls",
        directive "db_user" "creeper", directive "db_pass" "creeper",
        directive "pool_size" poolSize])]

/-- The port of a server that starts, and the connections of each of its
pools. -/
def usedNumbers : Ended Server → Option (UInt16 × List UInt64)
  | .returned server => some (server.port,
      server.locations.flatMap fun location => location.args.poolConnections)
  | _ => none

/-- Numbers that are not the ones written: the front of a word, a port
that wraps around, and a pool without a connection. -/
theorem numbers_changed :
    usedNumbers (startServer connected (fun _ => true)
        (shortenConfig "80abc" "5x")) = some (80, [5, 5])
      ∧ usedNumbers (startServer connected (fun _ => true)
        (shortenConfig "70000" "0")) = some (4464, [0, 0])
      ∧ usedNumbers (startServer connected (fun _ => true)
        (shortenConfig "-5" "5")) = some (65531, [5, 5])
      ∧ ∃ server, startServer connected (fun _ => true)
          (shortenConfig "80abc" "5x") = .returned server
        ∧ ¬ NumbersMean (shortenConfig "80abc" "5x") server := by
  refine ⟨by decide +kernel, by decide +kernel, by decide +kernel, _, rfl, ?_⟩
  intro hex
  obtain ⟨⟨word, hword, hnumeral⟩, -⟩ := hex
  cases hword
  cases hnumeral

end Creeper
