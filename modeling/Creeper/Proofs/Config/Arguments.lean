/-
What the handlers do with a location that has no block.

A location can end in `;` instead of a block. `CrudHandler` looks whether
there is one; `EchoHandler`, `StaticHandler`, `NotFoundHandler`,
`HealthHandler` and, unless it is given its fakes, `ShortenHandler` read
through the pointer (`handlesBlock_of_registered`). In a config that was
parsed nothing else is undefined, so `get_locations` makes an undefined
read if and only if it comes to such a location
(`getLocations_undefined_iff`), and short of that it refuses what lacks a
block (`blocksChecked_iff`).

Where the handlers return, the result is that of `getLocations`, which
takes their results as given (`getLocations_of_returned`).
-/
import Creeper.HandlerArgs
import Creeper.Proofs.Config.Blocks
import Creeper.Proofs.Dispatch.Locations

namespace Creeper

open Lib

variable {env : Surroundings} {statement : NginxConfigStatement}
  {config block : NginxConfig} {args : RequestHandlerArgs}
  {handler path : Str}
  {create : NginxConfigStatement → Ended (Option RequestHandlerArgs)}

-- =============================================================== the words

/-- The words of a statement, and of its block, have characters. -/
def NginxConfigStatement.NoEmptyWord (statement : NginxConfigStatement) :
    Prop :=
  ∀ word, Token.ofWord word ∈ statement.lexemes → word ≠ []

/-- So have those of all statements. -/
def NginxConfig.NoEmptyWord (config : NginxConfig) : Prop :=
  ∀ statement ∈ config, statement.NoEmptyWord

theorem Lexeme.ne_nil {word : Str} (h : Lexeme word) : word ≠ [] := by
  cases h with
  | quoted => exact List.cons_ne_nil _ _
  | word => exact List.cons_ne_nil _ _

theorem mem_lexemes (hmem : statement ∈ config) {token : Token}
    (htoken : token ∈ statement.lexemes) :
    token ∈ NginxConfig.lexemes config := by
  obtain ⟨before, after, rfl⟩ := List.append_of_mem hmem
  rw [lexemes_append, NginxConfig.lexemes]
  exact List.mem_append_right _ (List.mem_append_left _ htoken)

/-- A config that was parsed has no empty words. -/
theorem noEmptyWord_of_accepted {text : Str}
    (h : parse text = .accepted config) : config.NoEmptyWord := by
  obtain ⟨-, pre, value, htokens, hread⟩ := visible_of_accepted h
  intro statement hmem word hword
  have hlexeme := lexemes_of_accepted htokens word
  rw [hread] at hlexeme
  exact (hlexeme (mem_lexemes hmem hword)).ne_nil

/-- The words of a statement. -/
theorem NginxConfigStatement.NoEmptyWord.words
    (h : statement.NoEmptyWord) {word : Str} (hword : word ∈ statement.tokens) :
    word ≠ [] := by
  apply h
  obtain ⟨tokens, childBlock⟩ := statement
  have hmem : Token.ofWord word ∈ tokens.map Token.ofWord :=
    List.mem_map_of_mem hword
  cases childBlock with
  | none =>
      rw [NginxConfigStatement.lexemes]
      exact List.mem_append_left _ hmem
  | some block =>
      rw [NginxConfigStatement.lexemes, List.append_assoc]
      exact List.mem_append_left _ hmem

/-- The words of its block. -/
theorem NginxConfigStatement.NoEmptyWord.childBlock
    (h : statement.NoEmptyWord) (hblock : statement.childBlock = some block) :
    block.NoEmptyWord := by
  intro directive hdirective word hword
  apply h
  obtain ⟨tokens, childBlock⟩ := statement
  obtain rfl : childBlock = some block := hblock
  rw [NginxConfigStatement.lexemes]
  exact List.mem_append_left _ (List.mem_append_right _
    (List.mem_cons_of_mem _ (mem_lexemes hdirective hword)))

-- ============================================================ the handlers

theorem derefChildBlock_none (h : statement.childBlock = none) :
    statement.derefChildBlock = .undefined := by
  unfold NginxConfigStatement.derefChildBlock
  rw [h]
  rfl

theorem derefChildBlock_some (h : statement.childBlock = some block) :
    statement.derefChildBlock = .returned block := by
  unfold NginxConfigStatement.derefChildBlock
  rw [h]
  rfl

theorem emptyBlockArgs_some (h : statement.childBlock = some block)
    (args : RequestHandlerArgs) :
    emptyBlockArgs args statement ≠ .undefined := by
  unfold emptyBlockArgs
  rw [derefChildBlock_some h, Ended.returned_bind]
  split
  · nofun
  · nofun

/-- A directive that was looked at has its argument. -/
theorem argument_of_isDirective {name : Str}
    (h : statement.isDirective name = true) :
    ∃ word ∈ statement.tokens, statement.argument = .returned word := by
  unfold NginxConfigStatement.isDirective at h
  obtain ⟨hlength, -⟩ := Bool.and_eq_true_iff.mp h
  obtain ⟨first, second, htokens⟩ :=
    List.length_eq_two.mp (of_decide_eq_true hlength)
  refine ⟨second, ?_, ?_⟩
  · rw [htokens]
    simp
  · unfold NginxConfigStatement.argument
    rw [htokens]
    rfl

theorem directoryArgs_ne_undefined (h : block.NoEmptyWord) (name : Str)
    (make : Str → RequestHandlerArgs) :
    directoryArgs env name make block ≠ .undefined := by
  unfold directoryArgs
  split
  · next directive =>
    split
    · next hdirective =>
      obtain ⟨path, hpath, hargument⟩ := argument_of_isDirective hdirective
      have hne := (h directive (List.mem_singleton_self _)).words hpath
      rw [hargument, Ended.returned_bind, List.getLast?_eq_some_getLast hne,
        Ended.read_some, Ended.returned_bind]
      split
      · nofun
      · nofun
    · nofun
  · nofun

/-- A block that was validated has seven directives. -/
theorem argumentAt_of_valid (h : statement.childBlock = some block)
    (hvalid : validateConfigStructure statement = .returned true) {i : Nat}
    (hi : i < 7) : argumentAt block i ≠ .undefined := by
  unfold validateConfigStructure at hvalid
  rw [derefChildBlock_some h, Ended.returned_bind] at hvalid
  split at hvalid
  · cases hvalid
  · next hlength =>
    rw [not_not] at hlength
    have hall := Ended.returned.inj hvalid
    have hblock : i < block.length := by omega
    have hzip : i < (block.zip expectedTokens).length := by
      rw [List.length_zip, hlength]
      exact hi
    have hdirective := List.all_eq_true.mp hall _ (List.getElem_mem hzip)
    rw [List.getElem_zip] at hdirective
    obtain ⟨word, -, hword⟩ := argument_of_isDirective hdirective
    unfold argumentAt
    rw [List.getElem?_eq_getElem hblock, Ended.read_some,
      Ended.returned_bind, hword]
    nofun

/-- After the validation the clients can be made. -/
theorem realClients_ne_undefined (h : statement.childBlock = some block)
    (hvalid : validateConfigStructure statement = .returned true) :
    realClients env statement ≠ .undefined := by
  have hargument : ∀ i, i < 7 → argumentAt block i ≠ .undefined :=
    fun i hi => argumentAt_of_valid h hvalid hi
  unfold realClients
  rw [derefChildBlock_some h, Ended.returned_bind]
  refine Ended.bind_ne_undefined (hargument 0 (by decide)) fun redisIp => ?_
  refine Ended.bind_ne_undefined (hargument 1 (by decide)) fun word => ?_
  refine Ended.bind_ne_undefined (Ended.orStop_ne_undefined _)
    fun redisPort => ?_
  refine Ended.bind_ne_undefined (hargument 2 (by decide)) fun dbHost => ?_
  refine Ended.bind_ne_undefined (hargument 3 (by decide)) fun dbName => ?_
  refine Ended.bind_ne_undefined (hargument 4 (by decide)) fun dbUser => ?_
  refine Ended.bind_ne_undefined (hargument 5 (by decide)) fun dbPass => ?_
  refine Ended.bind_ne_undefined (hargument 6 (by decide)) fun word => ?_
  refine Ended.bind_ne_undefined (Ended.orStop_ne_undefined _)
    fun poolSize => ?_
  split
  · nofun
  · nofun

theorem shorten_some (h : statement.childBlock = some block) :
    ShortenRequestHandlerArgs.createFromConfig env statement
      ≠ .undefined := by
  unfold ShortenRequestHandlerArgs.createFromConfig
  split
  · nofun
  · cases hvalid : validateConfigStructure statement with
    | returned valid =>
        rw [Ended.returned_bind]
        cases valid with
        | true => exact realClients_ne_undefined h hvalid
        | false => nofun
    | stopped => nofun
    | undefined =>
        unfold validateConfigStructure at hvalid
        rw [derefChildBlock_some h, Ended.returned_bind] at hvalid
        split at hvalid
        · cases hvalid
        · cases hvalid

theorem shorten_none (h : statement.childBlock = none)
    (hreal : env.useFakeShortenClients = false) :
    ShortenRequestHandlerArgs.createFromConfig env statement
      = .undefined := by
  unfold ShortenRequestHandlerArgs.createFromConfig validateConfigStructure
  rw [hreal, derefChildBlock_none h]
  rfl

-- ======================================================== all the handlers

/-- The handlers that read through the pointer to the block. -/
def readsBlock (env : Surroundings) : List Str :=
  ["EchoHandler".toList, "StaticHandler".toList, "NotFoundHandler".toList,
      "HealthHandler".toList]
    ++ if env.useFakeShortenClients then [] else ["ShortenHandler".toList]

/-- The handlers that need a block: those, and the one that looks. -/
def needsBlock (env : Surroundings) : List Str :=
  "CrudHandler".toList :: readsBlock env

/-- What a handler does with a location, as far as the block goes. -/
structure HandlesBlock (env : Surroundings) (handler : Str)
    (create : NginxConfigStatement → Ended (Option RequestHandlerArgs)) :
    Prop where
  /-- Where it reads through the pointer, there has to be a block. -/
  reads : handler ∈ readsBlock env → ∀ statement,
    statement.childBlock = none → create statement = .undefined
  /-- No other read of it is undefined. -/
  reads_only : ∀ statement, statement.NoEmptyWord →
    create statement = .undefined →
      handler ∈ readsBlock env ∧ statement.childBlock = none
  /-- Where it needs a block, there are no arguments without one. -/
  needs : handler ∈ needsBlock env → ∀ statement args,
    statement.childBlock = none → create statement ≠ .returned (some args)
  /-- Where it needs none, there are arguments whatever the block is. -/
  needs_only : handler ∉ needsBlock env → ∀ statement,
    ∃ args, create statement = .returned (some args)

/-- A handler that reads through the pointer, and does nothing else that
is undefined. -/
theorem handlesBlock_of_reads (hmem : handler ∈ readsBlock env)
    (hnone : ∀ statement, statement.childBlock = none →
      create statement = .undefined)
    (hsome : ∀ statement block, statement.NoEmptyWord →
      statement.childBlock = some block → create statement ≠ .undefined) :
    HandlesBlock env handler create where
  reads _ := hnone
  reads_only statement hwords hundefined := by
    refine ⟨hmem, ?_⟩
    cases hblock : statement.childBlock with
    | none => rfl
    | some block =>
        exact absurd hundefined (hsome statement block hwords hblock)
  needs _ statement args hblock hreturned := by
    rw [hnone statement hblock] at hreturned
    cases hreturned
  needs_only h := absurd (List.mem_cons_of_mem _ hmem) h

/-- A handler that does nothing undefined. -/
theorem handlesBlock_of_safe (hmem : handler ∉ readsBlock env)
    (hsafe : ∀ statement, statement.NoEmptyWord →
      create statement ≠ .undefined)
    (hneeds : handler ∈ needsBlock env → ∀ statement args,
      statement.childBlock = none →
        create statement ≠ .returned (some args))
    (hneeds_only : handler ∉ needsBlock env → ∀ statement,
      ∃ args, create statement = .returned (some args)) :
    HandlesBlock env handler create where
  reads h := absurd h hmem
  reads_only statement hwords hundefined :=
    absurd hundefined (hsafe statement hwords)
  needs := hneeds
  needs_only := hneeds_only

theorem handlesBlock_emptyBlock (hmem : handler ∈ readsBlock env)
    (args : RequestHandlerArgs) :
    HandlesBlock env handler (emptyBlockArgs args) := by
  refine handlesBlock_of_reads hmem ?_ ?_
  · intro statement hblock
    unfold emptyBlockArgs
    rw [derefChildBlock_none hblock]
    rfl
  · intro statement block _ hblock
    exact emptyBlockArgs_some hblock args

theorem handlesBlock_static :
    HandlesBlock env "StaticHandler".toList
      (StaticRequestHandlerArgs.createFromConfig env) := by
  refine handlesBlock_of_reads (List.mem_append_left _ (by decide)) ?_ ?_
  · intro statement hblock
    unfold StaticRequestHandlerArgs.createFromConfig
    rw [derefChildBlock_none hblock]
    rfl
  · intro statement block hwords hblock
    unfold StaticRequestHandlerArgs.createFromConfig
    rw [derefChildBlock_some hblock, Ended.returned_bind]
    exact directoryArgs_ne_undefined (hwords.childBlock hblock) _ _

theorem handlesBlock_crud :
    HandlesBlock env "CrudHandler".toList
      (CrudRequestHandlerArgs.createFromConfig env) := by
  refine handlesBlock_of_safe ?_ ?_ ?_
    fun h => absurd (List.mem_cons_self ..) h
  · unfold readsBlock
    split <;> decide
  · intro statement hwords
    unfold CrudRequestHandlerArgs.createFromConfig
    split
    · nofun
    · next hblock =>
      exact directoryArgs_ne_undefined (hwords.childBlock hblock) _ _
  · intro _ statement args hblock
    unfold CrudRequestHandlerArgs.createFromConfig
    rw [hblock]
    nofun

theorem handlesBlock_shorten :
    HandlesBlock env "ShortenHandler".toList
      (ShortenRequestHandlerArgs.createFromConfig env) := by
  cases hfake : env.useFakeShortenClients with
  | true =>
      have hmem : "ShortenHandler".toList ∉ needsBlock env := by
        unfold needsBlock readsBlock
        rw [hfake]
        decide
      have hargs : ∀ statement,
          ShortenRequestHandlerArgs.createFromConfig env statement
            = .returned (some (.shorten .fakeRedisLocal .fakeDbLocal)) := by
        intro statement
        unfold ShortenRequestHandlerArgs.createFromConfig
        rw [hfake]
        rfl
      refine handlesBlock_of_safe
        (fun h => hmem (List.mem_cons_of_mem _ h)) ?_
        (fun h => absurd h hmem) fun _ statement => ⟨_, hargs statement⟩
      intro statement _
      rw [hargs statement]
      nofun
  | false =>
      refine handlesBlock_of_reads ?_ ?_ ?_
      · unfold readsBlock
        rw [hfake]
        decide
      · intro statement hblock
        exact shorten_none hblock hfake
      · intro statement block _ hblock
        exact shorten_some hblock

theorem handlesBlock_blocking :
    HandlesBlock env "BlockingHandler".toList
      BlockingRequestHandlerArgs.createFromConfig := by
  have hmem : "BlockingHandler".toList ∉ needsBlock env := by
    unfold needsBlock readsBlock
    split <;> decide
  refine handlesBlock_of_safe (fun h => hmem (List.mem_cons_of_mem _ h)) ?_
    (fun h => absurd h hmem) fun _ _ => ⟨.blocking, rfl⟩
  intro statement _
  nofun

/-- Every handler that is registered. -/
theorem handlesBlock_of_registered
    (h : getCreateFromConfig env handler = some create) :
    HandlesBlock env handler create := by
  have hmem := mem_createFromConfigMap h
  unfold createFromConfigMap at hmem
  simp only [List.mem_cons, Prod.mk.injEq, List.not_mem_nil, or_false]
    at hmem
  rcases hmem with ⟨rfl, rfl⟩ | ⟨rfl, rfl⟩ | ⟨rfl, rfl⟩ | ⟨rfl, rfl⟩
    | ⟨rfl, rfl⟩ | ⟨rfl, rfl⟩ | ⟨rfl, rfl⟩
  · exact handlesBlock_emptyBlock (List.mem_append_left _ (by decide)) _
  · exact handlesBlock_static
  · exact handlesBlock_emptyBlock (List.mem_append_left _ (by decide)) _
  · exact handlesBlock_emptyBlock (List.mem_append_left _ (by decide)) _
  · exact handlesBlock_crud
  · exact handlesBlock_shorten
  · exact handlesBlock_blocking

/-- A handler that reads through the pointer is registered. -/
theorem registered_of_reads (h : handler ∈ readsBlock env) :
    ∃ create, getCreateFromConfig env handler = some create := by
  have hnames : (createFromConfigMap env).map Prod.fst
      = ["EchoHandler".toList, "StaticHandler".toList,
        "NotFoundHandler".toList, "HealthHandler".toList,
        "CrudHandler".toList, "ShortenHandler".toList,
        "BlockingHandler".toList] := rfl
  have hall : ∀ name ∈ readsBlock env,
      name ∈ (createFromConfigMap env).map Prod.fst := by
    rw [hnames]
    unfold readsBlock
    split <;> decide
  obtain ⟨entry, hentry, rfl⟩ := List.mem_map.mp (hall handler h)
  exact Option.isSome_iff_exists.mp
    (List.lookup_isSome_iff.mpr ⟨entry, hentry, beq_self_eq_true _⟩)

-- ============================================================ one statement

/-- A location statement that `get_locations` takes to its handler, if
no location before it has its path. -/
structure Directive (statement : NginxConfigStatement)
    (path handler : Str) : Prop where
  tokens : statement.tokens = ["location".toList, path, handler]
  allowed : PathAllowed path

/-- The handler makes arguments of the statement. -/
def Accepted (env : Surroundings) (statement : NginxConfigStatement) :
    Prop :=
  ∃ path handler create args, Directive statement path handler
    ∧ getCreateFromConfig env handler = some create
    ∧ create statement = .returned (some args)

/-- The statement has no block, and its handler reads through the
pointer. -/
def ReadsNull (env : Surroundings) (statement : NginxConfigStatement) :
    Prop :=
  ∃ path handler, Directive statement path handler
    ∧ handler ∈ readsBlock env ∧ statement.childBlock = none

/-- A location statement without the block its handler needs. -/
def LacksBlock (env : Surroundings) (statement : NginxConfigStatement) :
    Prop :=
  ∃ path handler, statement.tokens = ["location".toList, path, handler]
    ∧ handler ∈ needsBlock env ∧ statement.childBlock = none

/-- The path of a location statement. -/
def locationPath (statement : NginxConfigStatement) : Option Str :=
  match statement.tokens with
  | [keyword, path, _] =>
      if keyword = "location".toList then some path else none
  | _ => none

/-- After locations with these paths, `get_locations` comes to a statement
that has no block and whose handler reads through the pointer: every
location before it was accepted, and no path came twice. -/
def ReachesNull (env : Surroundings) (paths : List Str)
    (config : NginxConfig) : Prop :=
  ∃ before statement after, config = before ++ statement :: after
    ∧ (∀ earlier ∈ before, earlier.isLocation → Accepted env earlier)
    ∧ (paths ++ (before ++ [statement]).filterMap locationPath).Nodup
    ∧ ReadsNull env statement

-- ============================================================= the words of it

section Directives

variable (hdirective : Directive statement path handler)
include hdirective

theorem Directive.isLocation : statement.isLocation := by
  unfold NginxConfigStatement.isLocation
  rw [hdirective.tokens]
  rfl

/-- A statement is one directive. -/
theorem Directive.unique {path' handler' : Str}
    (h : Directive statement path' handler') :
    path' = path ∧ handler' = handler := by
  have htokens := h.tokens
  rw [hdirective.tokens] at htokens
  cases htokens
  exact ⟨rfl, rfl⟩

theorem Directive.locationPath : locationPath statement = some path := by
  unfold Creeper.locationPath
  rw [hdirective.tokens]
  exact if_pos rfl

/-- A statement is accepted when the call of the handler returns
arguments. -/
theorem Directive.accepted_iff : Accepted env statement ↔
    ∃ create args, getCreateFromConfig env handler = some create
      ∧ create statement = .returned (some args) := by
  constructor
  · intro hex
    obtain ⟨path', handler', create, args, h, hcreate, hargs⟩ := hex
    obtain ⟨rfl, rfl⟩ := hdirective.unique h
    exact ⟨create, args, hcreate, hargs⟩
  · intro hex
    obtain ⟨create, args, hcreate, hargs⟩ := hex
    exact ⟨path, handler, create, args, hdirective, hcreate, hargs⟩

/-- A statement reads through a null pointer when the call of the handler
is undefined. -/
theorem Directive.readsNull_iff (hwords : statement.NoEmptyWord) :
    ReadsNull env statement ↔
      ∃ create, getCreateFromConfig env handler = some create
        ∧ create statement = .undefined := by
  constructor
  · intro hex
    obtain ⟨path', handler', h, hreads, hblock⟩ := hex
    obtain ⟨rfl, rfl⟩ := hdirective.unique h
    obtain ⟨create, hcreate⟩ := registered_of_reads hreads
    exact ⟨create, hcreate, (handlesBlock_of_registered hcreate).reads hreads
      statement hblock⟩
  · intro hex
    obtain ⟨create, hcreate, hundefined⟩ := hex
    obtain ⟨hreads, hblock⟩ := (handlesBlock_of_registered hcreate).reads_only
      statement hwords hundefined
    exact ⟨path, handler, hdirective, hreads, hblock⟩

end Directives

/-- A statement is no location, or one that is not taken to a handler, or
one that is. -/
theorem statement_cases (statement : NginxConfigStatement) :
    ¬ statement.isLocation
      ∨ (statement.isLocation
        ∧ ∀ path handler, ¬ Directive statement path handler)
      ∨ ∃ path handler, Directive statement path handler := by
  by_cases hlocation : statement.isLocation
  · by_cases hdirective : ∃ path handler, Directive statement path handler
    · exact Or.inr (Or.inr hdirective)
    · exact Or.inr (Or.inl ⟨hlocation,
        fun path handler h => hdirective ⟨path, handler, h⟩⟩)
  · exact Or.inl hlocation

-- ================================================================= one turn

section Turns

variable {rest : NginxConfig}
  {locations : List (NginxLocation RequestHandlerArgs)}

/-- Other statements are passed over. -/
theorem turn_other (h : ¬ statement.isLocation) :
    NginxConfig.getLocationsLoop env (statement :: rest) locations
      = NginxConfig.getLocationsLoop env rest locations := by
  unfold NginxConfigStatement.isLocation at h
  rw [NginxConfig.getLocationsLoop]
  split
  · next keyword path handler htokens =>
    rw [htokens, List.head?_cons, Option.some.injEq] at h
    exact if_neg h
  · exact if_neg h

/-- What follows the call of a handler. -/
def afterArgs (env : Surroundings) (rest : NginxConfig)
    (locations : List (NginxLocation RequestHandlerArgs))
    (path handler : Str) : Option RequestHandlerArgs →
      Ended (NginxLocationResult RequestHandlerArgs)
  | none => .returned .invalid
  | some args => NginxConfig.getLocationsLoop env rest
      (locations ++ [⟨path, handler, args⟩])

/-- The call of a handler, if it is registered. -/
def callHandler (env : Surroundings) (statement : NginxConfigStatement)
    (rest : NginxConfig)
    (locations : List (NginxLocation RequestHandlerArgs))
    (path handler : Str) : Ended (NginxLocationResult RequestHandlerArgs) :=
  match getCreateFromConfig env handler with
  | none => .returned .invalid
  | some create =>
      create statement >>= afterArgs env rest locations path handler

/-- A location statement of three words. -/
theorem turn_location (htokens : statement.tokens
      = ["location".toList, path, handler]) (hne : path ≠ []) :
    NginxConfig.getLocationsLoop env (statement :: rest) locations
      = if PathAllowed path then
          if path ∈ locations.map NginxLocation.path then
            .returned .invalid
          else callHandler env statement rest locations path handler
        else .returned .invalid := by
  have hdup : (∃ existing ∈ locations, path = existing.path)
      ↔ path ∈ locations.map NginxLocation.path := by
    rw [List.mem_map]
    exact exists_congr fun _ => and_congr_right fun _ => eq_comm
  rw [NginxConfig.getLocationsLoop, htokens]
  simp only [if_true, if_neg hne, pathTests_eq, hdup]
  rfl

/-- A location statement of three words, with an empty path. -/
theorem turn_empty
    (htokens : statement.tokens = ["location".toList, [], handler]) :
    NginxConfig.getLocationsLoop env (statement :: rest) locations
      = .undefined := by
  rw [NginxConfig.getLocationsLoop, htokens]
  rfl

/-- A location statement of fewer words or more. -/
theorem turn_length (h : statement.isLocation)
    (hlength : statement.tokens.length ≠ 3) :
    NginxConfig.getLocationsLoop env (statement :: rest) locations
      = .returned .invalid := by
  unfold NginxConfigStatement.isLocation at h
  rw [NginxConfig.getLocationsLoop]
  split
  · next htokens =>
    rw [htokens] at hlength
    exact absurd rfl hlength
  · exact if_pos h

/-- The words of a location statement of three. -/
theorem words_of_location (h : statement.isLocation)
    (hlength : statement.tokens.length = 3) :
    ∃ path handler,
      statement.tokens = ["location".toList, path, handler] := by
  unfold NginxConfigStatement.isLocation at h
  obtain ⟨keyword, path, handler, htokens⟩ := List.length_eq_three.mp hlength
  rw [htokens, List.head?_cons, Option.some.injEq] at h
  rw [h] at htokens
  exact ⟨path, handler, htokens⟩

/-- A location statement that is not taken to a handler. -/
theorem turn_malformed (hwords : statement.NoEmptyWord)
    (h : statement.isLocation)
    (hnot : ∀ path handler, ¬ Directive statement path handler) :
    NginxConfig.getLocationsLoop env (statement :: rest) locations
      = .returned .invalid := by
  by_cases hlength : statement.tokens.length = 3
  · obtain ⟨path, handler, htokens⟩ := words_of_location h hlength
    have hne : path ≠ [] := hwords.words (by rw [htokens]; simp)
    rw [turn_location htokens hne,
      if_neg fun hallowed => hnot path handler ⟨htokens, hallowed⟩]
  · exact turn_length h hlength

/-- A path that was there before. -/
theorem turn_duplicate (hwords : statement.NoEmptyWord)
    (h : Directive statement path handler)
    (hdup : path ∈ locations.map NginxLocation.path) :
    NginxConfig.getLocationsLoop env (statement :: rest) locations
      = .returned .invalid := by
  have hne : path ≠ [] := hwords.words (by rw [h.tokens]; simp)
  rw [turn_location h.tokens hne, if_pos h.allowed, if_pos hdup]

/-- A new path is taken to its handler. -/
theorem turn_new (hwords : statement.NoEmptyWord)
    (h : Directive statement path handler)
    (hnew : path ∉ locations.map NginxLocation.path) :
    NginxConfig.getLocationsLoop env (statement :: rest) locations
      = callHandler env statement rest locations path handler := by
  have hne : path ≠ [] := hwords.words (by rw [h.tokens]; simp)
  rw [turn_location h.tokens hne, if_pos h.allowed, if_neg hnew]

end Turns

-- ================================================================= all turns

section Runs

variable {paths : List Str} {rest : NginxConfig}
  {locations : List (NginxLocation RequestHandlerArgs)}

theorem filterMap_locationPath (statement : NginxConfigStatement)
    (config : NginxConfig) : (statement :: config).filterMap locationPath
      = (locationPath statement).toList ++ config.filterMap locationPath := by
  cases h : locationPath statement with
  | none => exact List.filterMap_cons_none h
  | some path => exact List.filterMap_cons_some h

theorem not_reachesNull_nil : ¬ ReachesNull env paths [] := by
  intro hex
  obtain ⟨before, statement, after, hconfig, -⟩ := hex
  exact absurd hconfig.symm
    (List.append_ne_nil_of_right_ne_nil before (List.cons_ne_nil _ _))

/-- Either the first statement reads through a null pointer, or it is
passed. -/
theorem reachesNull_cons : ReachesNull env paths (statement :: rest) ↔
    (paths ++ (locationPath statement).toList).Nodup
      ∧ (ReadsNull env statement
        ∨ ((statement.isLocation → Accepted env statement)
          ∧ ReachesNull env (paths ++ (locationPath statement).toList)
            rest)) := by
  constructor
  · intro hex
    obtain ⟨before, culprit, after, hconfig, hbefore, hnodup, hreads⟩ := hex
    cases before with
    | nil =>
        obtain ⟨rfl, rfl⟩ := List.cons.inj hconfig
        rw [List.nil_append, filterMap_locationPath, List.filterMap_nil,
          List.append_nil] at hnodup
        exact ⟨hnodup, Or.inl hreads⟩
    | cons first before =>
        obtain ⟨rfl, rfl⟩ := List.cons.inj hconfig
        rw [List.cons_append, filterMap_locationPath, ← List.append_assoc]
          at hnodup
        obtain ⟨hfirst, hbefore⟩ := List.forall_mem_cons.mp hbefore
        exact ⟨(List.nodup_append.mp hnodup).1, Or.inr ⟨hfirst, before,
          culprit, after, rfl, hbefore, hnodup, hreads⟩⟩
  · intro hex
    obtain ⟨hnodup, hreads | ⟨hfirst, before, culprit, after, rfl, hbefore,
      hnodup', hreads⟩⟩ := hex
    · refine ⟨[], statement, rest, rfl, nofun, ?_, hreads⟩
      rw [List.nil_append, filterMap_locationPath, List.filterMap_nil,
        List.append_nil]
      exact hnodup
    · refine ⟨statement :: before, culprit, after, rfl,
        List.forall_mem_cons.mpr ⟨hfirst, hbefore⟩, ?_, hreads⟩
      rw [List.cons_append, filterMap_locationPath, ← List.append_assoc]
      exact hnodup'

/-- A statement that is no location changes nothing. -/
theorem reachesNull_other (h : ¬ statement.isLocation) :
    ReachesNull env paths (statement :: rest)
      ↔ ReachesNull env paths rest := by
  have hpath : locationPath statement = none := by
    unfold NginxConfigStatement.isLocation at h
    unfold locationPath
    split
    · next htokens =>
      rw [htokens, List.head?_cons, Option.some.injEq] at h
      exact if_neg h
    · rfl
  have hreads : ¬ ReadsNull env statement :=
    fun ⟨_, _, hdirective, _⟩ => h hdirective.isLocation
  rw [reachesNull_cons, hpath, Option.toList_none, List.append_nil]
  constructor
  · intro hex
    obtain ⟨-, hnull | ⟨-, hreaches⟩⟩ := hex
    · exact absurd hnull hreads
    · exact hreaches
  · intro hreaches
    refine ⟨?_, Or.inr ⟨fun hlocation => absurd hlocation h, hreaches⟩⟩
    obtain ⟨before, culprit, after, -, -, hnodup, -⟩ := hreaches
    exact (List.nodup_append.mp hnodup).1

/-- A statement that is not taken to a handler does not read through a
null pointer, and is not accepted. -/
theorem not_reachesNull_malformed (h : statement.isLocation)
    (hnot : ∀ path handler, ¬ Directive statement path handler) :
    ¬ ReachesNull env paths (statement :: rest) := by
  rw [reachesNull_cons]
  intro hex
  obtain ⟨-, ⟨path, handler, hdirective, -⟩ | ⟨haccepted, -⟩⟩ := hex
  · exact hnot path handler hdirective
  · obtain ⟨path, handler, -, -, hdirective, -⟩ := haccepted h
    exact hnot path handler hdirective

/-- The call of a handler, and what comes after it. -/
theorem callHandler_undefined_iff (hwords : statement.NoEmptyWord)
    (h : Directive statement path handler)
    (hnodup : (paths ++ [path]).Nodup)
    (hrest : ∀ args, NginxConfig.getLocationsLoop env rest
        (locations ++ [⟨path, handler, args⟩]) = .undefined
      ↔ ReachesNull env (paths ++ [path]) rest) :
    callHandler env statement rest locations path handler = .undefined
      ↔ ReachesNull env paths (statement :: rest) := by
  rw [reachesNull_cons, h.locationPath, Option.toList_some,
    h.readsNull_iff hwords, h.accepted_iff]
  unfold callHandler
  cases hcreate : getCreateFromConfig env handler with
  | none =>
      refine iff_of_false nofun ?_
      intro hex
      obtain ⟨-, ⟨create, hnone, -⟩ | ⟨haccepted, -⟩⟩ := hex
      · cases hnone
      · obtain ⟨create, args, hnone, -⟩ := haccepted h.isLocation
        cases hnone
  | some create =>
      have hlocation := h.isLocation
      cases hcall : create statement with
      | returned result =>
          cases result with
          | none => simp [hcall, afterArgs, hlocation]
          | some args => simp [hcall, afterArgs, hrest, hnodup]
      | stopped => simp [hcall, hlocation]
      | undefined => simp [hcall, hnodup]

/-- `get_locations` makes an undefined read when it comes to a statement
that reads through a null pointer, and then only. -/
theorem getLocationsLoop_undefined_iff (config : NginxConfig)
    (hwords : config.NoEmptyWord)
    (hnodup : (locations.map NginxLocation.path).Nodup) :
    NginxConfig.getLocationsLoop env config locations = .undefined
      ↔ ReachesNull env (locations.map NginxLocation.path) config := by
  induction config generalizing locations with
  | nil => exact iff_of_false nofun not_reachesNull_nil
  | cons statement rest ih =>
      obtain ⟨hstatement, hrest⟩ := List.forall_mem_cons.mp hwords
      rcases statement_cases statement with
        hother | ⟨hlocation, hnot⟩ | ⟨path, handler, hdirective⟩
      · rw [turn_other hother, reachesNull_other hother]
        exact ih hrest hnodup
      · rw [turn_malformed hstatement hlocation hnot]
        exact iff_of_false nofun (not_reachesNull_malformed hlocation hnot)
      · by_cases hdup : path ∈ locations.map NginxLocation.path
        · rw [turn_duplicate hstatement hdirective hdup, reachesNull_cons,
            hdirective.locationPath]
          refine iff_of_false nofun fun hreaches => ?_
          exact (List.nodup_append.mp hreaches.1).2.2 _ hdup _
            (List.mem_singleton_self _) rfl
        · have hnodup' : (locations.map NginxLocation.path
              ++ [path]).Nodup := by
            rw [← List.concat_eq_append]
            exact hnodup.concat hdup
          rw [turn_new hstatement hdirective hdup]
          refine callHandler_undefined_iff hstatement hdirective hnodup'
            fun args => ?_
          have hafter := @ih (locations ++ [⟨path, handler, args⟩]) hrest
          rw [List.map_append] at hafter
          exact hafter hnodup'

/-- What a handler returns, `none` also where its call is cut short. -/
def returnedArgs (create : NginxConfigStatement →
      Ended (Option RequestHandlerArgs)) (statement : NginxConfigStatement) :
    Option RequestHandlerArgs :=
  match create statement with
  | .returned args => args
  | _ => none

/-- The registry of the seven handlers as `getLocations` takes it. -/
def registryOf {H : Type}
    (factoryMap : Str → Option (Str → RequestHandlerArgs → H))
    (env : Surroundings) : Registry RequestHandlerArgs H where
  factoryMap := factoryMap
  createFromConfigMap handler :=
    (getCreateFromConfig env handler).map returnedArgs

variable {H : Type}
  {factoryMap : Str → Option (Str → RequestHandlerArgs → H)}
  {result : NginxLocationResult RequestHandlerArgs}

/-- The location of a statement, if its handler returns arguments. -/
theorem Directive.locationOf (h : Directive statement path handler) :
    locationOf (registryOf factoryMap env) statement
      = (getCreateFromConfig env handler).bind fun create =>
          (returnedArgs create statement).map fun args =>
            ⟨path, handler, args⟩ := by
  rw [locationOf_of_tokens h.tokens, if_pos ⟨rfl, h.allowed⟩]
  unfold Registry.getCreateFromConfig registryOf
  rw [Option.bind_map]
  rfl

theorem Directive.path_of_locationOf {A : Type} {reg : Registry A H}
    (h : Directive statement path handler) {location : NginxLocation A}
    (hsome : Creeper.locationOf reg statement = some location) :
    location.path = path := by
  obtain ⟨htokens, hallowed, -⟩ := locationOf_eq_some_iff.mp hsome
  exact (h.unique ⟨htokens, hallowed⟩).1

/-- A statement that is not taken to a handler makes no location. -/
theorem locationOf_malformed {A : Type} {reg : Registry A H}
    (hnot : ∀ path handler, ¬ Directive statement path handler) :
    locationOf reg statement = none := by
  rw [Option.eq_none_iff_forall_ne_some]
  intro location hsome
  obtain ⟨htokens, hallowed, -⟩ := locationOf_eq_some_iff.mp hsome
  exact hnot _ _ ⟨htokens, hallowed⟩

/-- The call of a handler, on both sides. -/
theorem callHandler_of_returned
    (factoryMap : Str → Option (Str → RequestHandlerArgs → H))
    (h : Directive statement path handler)
    (hcall : callHandler env statement rest locations path handler
      = .returned result)
    (hrest : ∀ args, NginxConfig.getLocationsLoop env rest
        (locations ++ [⟨path, handler, args⟩]) = .returned result →
      getLocationsLoop (registryOf factoryMap env) rest
        (locations ++ [⟨path, handler, args⟩]) = result) :
    (match locationOf (registryOf factoryMap env) statement with
      | none => .invalid
      | some location => getLocationsLoop (registryOf factoryMap env) rest
          (locations ++ [location])) = result := by
  rw [h.locationOf]
  unfold callHandler at hcall
  cases hcreate : getCreateFromConfig env handler with
  | none =>
      rw [hcreate] at hcall
      exact Ended.returned.inj hcall
  | some create =>
      rw [hcreate] at hcall
      simp only at hcall
      rw [Option.bind_some]
      unfold returnedArgs
      cases hends : create statement with
      | returned args =>
          rw [hends, Ended.returned_bind] at hcall
          cases args with
          | none => exact Ended.returned.inj hcall
          | some args => exact hrest args hcall
      | stopped =>
          rw [hends] at hcall
          cases hcall
      | undefined =>
          rw [hends] at hcall
          cases hcall

/-- The loop of `getLocations` returns what this one does. -/
theorem getLocationsLoop_of_returned (config : NginxConfig)
    (hwords : config.NoEmptyWord)
    (h : NginxConfig.getLocationsLoop env config locations
      = .returned result) :
    getLocationsLoop (registryOf factoryMap env) config locations
      = result := by
  induction config generalizing locations with
  | nil => exact Ended.returned.inj h
  | cons statement rest ih =>
      obtain ⟨hstatement, hrest⟩ := List.forall_mem_cons.mp hwords
      rw [getLocationsLoop_cons]
      rcases statement_cases statement with
        hother | ⟨hlocation, hnot⟩ | ⟨path, handler, hdirective⟩
      · rw [turn_other hother] at h
        rw [if_neg hother]
        exact ih hrest h
      · rw [turn_malformed hstatement hlocation hnot] at h
        rw [if_pos hlocation, locationOf_malformed hnot]
        exact Ended.returned.inj h
      · rw [if_pos hdirective.isLocation]
        by_cases hdup : path ∈ locations.map NginxLocation.path
        · rw [turn_duplicate hstatement hdirective hdup] at h
          obtain rfl := Ended.returned.inj h
          split
          · rfl
          · next location hsome =>
            rw [hdirective.path_of_locationOf hsome, if_pos hdup]
        · rw [turn_new hstatement hdirective hdup] at h
          have hcall := callHandler_of_returned factoryMap hdirective h
            fun args => ih hrest
          cases hsome : locationOf (registryOf factoryMap env) statement with
          | none =>
              rw [hsome] at hcall
              exact hcall
          | some location =>
              rw [hsome] at hcall
              simp only
              rw [hdirective.path_of_locationOf hsome, if_neg hdup]
              exact hcall

end Runs

-- ============================================================ the statement

section Statement

variable {result : NginxLocationResult RequestHandlerArgs}

/-- Where the handlers return, the result is that of `getLocations`. -/
theorem getLocations_of_returned {H : Type}
    (factoryMap : Str → Option (Str → RequestHandlerArgs → H))
    (hwords : config.NoEmptyWord)
    (h : NginxConfig.getLocations env config = .returned result) :
    getLocations (registryOf factoryMap env) config = result :=
  getLocationsLoop_of_returned config hwords h

/-- A valid result has no location that lacks its block. -/
theorem not_lacksBlock_of_valid (hwords : config.NoEmptyWord)
    (h : NginxConfig.getLocations env config = .returned result)
    (hvalid : result.valid = true) :
    ∀ statement ∈ config, ¬ LacksBlock env statement := by
  have hresult := getLocations_of_returned (H := Unit) (fun _ => none)
    hwords h
  rw [← hresult] at hvalid
  obtain ⟨hall, -⟩ := getLocations_valid_iff.mp hvalid
  intro statement hmem hex
  obtain ⟨path, handler, htokens, hneeds, hblock⟩ := hex
  have hlocation : statement.isLocation := by
    unfold NginxConfigStatement.isLocation
    rw [htokens]
    rfl
  obtain ⟨location, hlocationOf⟩ :=
    Option.isSome_iff_exists.mp (hall statement hmem hlocation)
  obtain ⟨htokens', hallowed, -⟩ := locationOf_eq_some_iff.mp hlocationOf
  have hdirective : Directive statement location.path location.handler :=
    ⟨htokens', hallowed⟩
  rw [htokens] at htokens'
  obtain rfl : handler = location.handler := by
    cases htokens'
    rfl
  rw [hdirective.locationOf] at hlocationOf
  obtain ⟨create, hcreate, hmap⟩ := Option.bind_eq_some_iff.mp hlocationOf
  obtain ⟨args, hargs, -⟩ := Option.map_eq_some_iff.mp hmap
  apply (handlesBlock_of_registered hcreate).needs hneeds statement args
    hblock
  unfold returnedArgs at hargs
  split at hargs
  · next hreturned => rw [hreturned, hargs]
  · cases hargs

/-- `get_locations` makes no undefined read, and where a location lacks the
block its handler needs, the result is not valid. -/
def BlocksChecked (env : Surroundings) (config : NginxConfig) : Prop :=
  NginxConfig.getLocations env config ≠ .undefined
    ∧ ∀ statement ∈ config, LacksBlock env statement → ∀ result,
      NginxConfig.getLocations env config = .returned result →
        result.valid = false

/-- In a config that was parsed, no read but that of a null pointer to a
block is undefined. -/
theorem getLocations_undefined_iff {text : Str}
    (h : parse text = .accepted config) :
    NginxConfig.getLocations env config = .undefined
      ↔ ReachesNull env [] config :=
  getLocationsLoop_undefined_iff config (noEmptyWord_of_accepted h)
    List.nodup_nil

/-- Blocks are looked at before they are read, exactly: in every config
that was parsed, unless `get_locations` comes to a location without a
block whose handler reads through the pointer. -/
theorem blocksChecked_iff (env : Surroundings) (text : Str)
    (config : NginxConfig) (h : parse text = .accepted config) :
    BlocksChecked env config ↔ ¬ ReachesNull env [] config := by
  have hwords := noEmptyWord_of_accepted h
  constructor
  · intro hchecked hreaches
    exact hchecked.1 ((getLocations_undefined_iff h).mpr hreaches)
  · intro hnot
    refine ⟨fun hnull => hnot ((getLocations_undefined_iff h).mp hnull), ?_⟩
    intro statement hmem hlacks result hreturned
    cases hvalid : result.valid with
    | false => rfl
    | true =>
        exact absurd hlacks
          (not_lacksBlock_of_valid hwords hreturned hvalid statement hmem)

/-- A file system with nothing but its root, and nothing to connect to. -/
def emptySurroundings : Surroundings where
  useFakeShortenClients := false
  isRelative path := path.head? ≠ some '/'
  pathExists path := some (path = "/".toList)
  canonical path := if path = "/".toList then some path else none
  redisConnects _ _ _ := false
  databaseConnects _ _ _ _ _ := false

/-- A text of one location without a block. -/
def blocklessText (handler : Str) : Str :=
  "location /x ".toList ++ handler ++ [';']

/-- The config of the text. -/
def blockless (handler : Str) : NginxConfig :=
  [.mk ["location".toList, "/x".toList, handler] none]

theorem parse_blockless (handler : Str)
    (h : parseTokens (blocklessText handler)
      = [.ofWord "location".toList, .ofWord "/x".toList, .ofWord handler,
        .statementEnd, ⟨.eof, []⟩]) :
    parse (blocklessText handler) = .accepted (blockless handler) := by
  unfold parse
  rw [h]
  rfl

theorem blocksChecked_crud :
    BlocksChecked emptySurroundings (blockless "CrudHandler".toList) := by
  have h := parse_blockless "CrudHandler".toList (by decide +kernel)
  refine (blocksChecked_iff emptySurroundings _ _ h).mpr fun hreaches => ?_
  have hundefined := (getLocations_undefined_iff h).mpr hreaches
  revert hundefined
  nofun

/-- `EchoHandler` reads through the pointer. -/
theorem null_block_read :
    ¬ ∀ config, parse (blocklessText "EchoHandler".toList)
      = .accepted config → BlocksChecked emptySurroundings config := by
  intro hclaim
  have h := parse_blockless "EchoHandler".toList (by decide +kernel)
  exact (hclaim _ h).1 rfl

end Statement

end Creeper
