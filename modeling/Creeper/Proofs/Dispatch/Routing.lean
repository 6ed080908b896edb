/-
Routing: which handler a request gets, and when it gets none.

The table the constructor builds has one route for each location
(`addRoutes_find`), and the search over it is the longest prefix among
the location paths, whatever order the table is iterated in
(`longestPrefixMatch_eq`). `getHandler_of_longest` puts the two together
for a URI with a location: the route of the longest one, and the table
as it was.

For a URI without a location the search returns the empty string, no
path is empty, and `routes_[""]` inserts a null pointer and dereferences
it (`getHandler_of_no_location`). `dispatch_safe_iff` says for a whole
sequence of requests that this is the only way the dispatcher goes
wrong.
-/
import Creeper.Dispatcher
import Creeper.Lib.LongestPrefix
import Creeper.Proofs.Dispatch.Locations

namespace Creeper

open Lib

variable {A H : Type} {reg : Registry A H} {config : NginxConfig}
  {routes routes' : Routes A H} {location : NginxLocation A}
  {calls : List (Registration A H)} {req : Request}

-- ========================================================== the search

/-- The two accumulators of the search are one. -/
theorem foldl_matchRoute (url : Str) (uris : List Str) (best : Str) :
    uris.foldl (matchRoute url) (best.length, best)
      = ((uris.foldl (better url) best).length,
        uris.foldl (better url) best) := by
  induction uris generalizing best with
  | nil => rfl
  | cons uri uris ih =>
      have hturn : matchRoute url (best.length, best) uri
          = ((better url best uri).length, better url best uri) := by
        unfold matchRoute better
        split
        · split <;> rfl
        · rfl
      rw [List.foldl_cons, List.foldl_cons, hturn, ih]

/-- `longest_prefix_match` is the search for the longest prefix. -/
theorem longestPrefixMatch_eq (routes : Routes A H) (url : Str) :
    longestPrefixMatch routes url = longestPrefix routes.keys url :=
  congrArg Prod.snd (foldl_matchRoute url routes.keys [])

-- =========================================================== the table

/-- The route of a location. -/
def routeOf (reg : Registry A H) (location : NginxLocation A) :
    Route A H :=
  ⟨reg.getHandlerFactory location.handler, location.path, location.args⟩

/-- One `add_route`: a new path gets its route, everything else is as it
was. -/
theorem addRoute_find (routes : Routes A H) (location : NginxLocation A)
    (path : Str) :
    (addRoute reg routes location).find path
      = (routes.find path).or
        (if location.path = path then some (some (routeOf reg location))
          else none) := by
  unfold addRoute
  split
  · next hold =>
    split
    · next hpath =>
      subst hpath
      rw [Option.or_of_isSome hold]
    · rw [Option.or_none]
  · next hnew =>
    split
    · next hpath =>
      subst hpath
      exact Table.find_emplace_self ..
    · next hpath =>
      rw [Option.or_none]
      exact Table.find_emplace_ne _ (fun h => hpath h.symm) _

/-- The loop of `add_routes`: a path has the route it had, or that of
the first location with it. -/
theorem foldl_addRoute_find (locations : List (NginxLocation A))
    (routes : Routes A H) (path : Str) :
    (locations.foldl (addRoute reg) routes).find path
      = (routes.find path).or
        ((locations.find? fun l => l.path = path).map fun l =>
          some (routeOf reg l)) := by
  induction locations generalizing routes with
  | nil => exact (Option.or_none ..).symm
  | cons location locations ih =>
      rw [List.foldl_cons, ih, addRoute_find, Option.or_assoc]
      by_cases hpath : location.path = path
      · rw [if_pos hpath, List.find?_cons_of_pos (by simpa using hpath)]
        rfl
      · rw [if_neg hpath, List.find?_cons_of_neg (by simpa using hpath),
          Option.none_or]

/-- The constructor succeeds on a valid result, and only there. -/
theorem addRoutes_eq_some (h : addRoutes reg config = some routes) :
    (getLocations reg config).valid = true
      ∧ routes = (getLocations reg config).locations.foldl (addRoute reg)
          Table.empty := by
  unfold addRoutes at h
  dsimp only at h
  split at h
  · next hvalid => exact ⟨hvalid, (Option.some.inj h).symm⟩
  · cases h

/-- The table that was built has the route of every location under its
path. -/
theorem addRoutes_find (h : addRoutes reg config = some routes)
    (hloc : location ∈ (getLocations reg config).locations) :
    routes.find location.path = some (some (routeOf reg location)) := by
  obtain ⟨hvalid, rfl⟩ := addRoutes_eq_some h
  rw [foldl_addRoute_find, Table.find_empty, Option.none_or]
  -- no other location has the path, so the first one with it is this one
  cases hfind : (getLocations reg config).locations.find?
      fun l => l.path = location.path with
  | none =>
      have hne := List.find?_eq_none.mp hfind location hloc
      simp at hne
  | some first =>
      have hpath : first.path = location.path := by
        simpa using List.find?_some hfind
      rw [List.inj_on_of_nodup_map (getLocations_nodup hvalid)
        (List.mem_of_find?_eq_some hfind) hloc hpath]
      rfl

/-- Its keys are the location paths. -/
theorem addRoutes_keys (h : addRoutes reg config = some routes)
    (path : Str) :
    path ∈ routes.keys
      ↔ path ∈ (getLocations reg config).locations.map
          NginxLocation.path := by
  constructor
  · intro hmem
    obtain ⟨-, rfl⟩ := addRoutes_eq_some h
    by_contra hout
    refine Table.find_eq_none_iff.mp ?_ hmem
    rw [foldl_addRoute_find, Table.find_empty, Option.none_or,
      List.find?_eq_none.mpr, Option.map_none]
    intro l hl hpath
    exact hout (List.mem_map.mpr ⟨l, hl, by simpa using hpath⟩)
  · intro hmem
    obtain ⟨location, hloc, rfl⟩ := List.mem_map.mp hmem
    by_contra hout
    rw [← Table.find_eq_none_iff, addRoutes_find h hloc] at hout
    cases hout

-- ============================================================ one request

/-- The location is the longest whose path is a prefix of the URI. -/
def LongestLocation (reg : Registry A H) (config : NginxConfig) (uri : Str)
    (location : NginxLocation A) : Prop :=
  location ∈ (getLocations reg config).locations
    ∧ IsLongestPrefix
        ((getLocations reg config).locations.map NginxLocation.path) uri
        location.path

/-- A URI that has a location has a longest one. -/
theorem exists_longestLocation {uri : Str}
    (hloc : location ∈ (getLocations reg config).locations)
    (hstarts : location.path <+: uri) :
    ∃ longest, LongestLocation reg config uri longest := by
  obtain ⟨path, hpath⟩ :=
    exists_isLongestPrefix (List.mem_map_of_mem hloc) hstarts
  obtain ⟨longest, hmem, rfl⟩ := List.mem_map.mp hpath.mem
  exact ⟨longest, hmem, hpath⟩

/-- The name of a location's handler is in the factory map too. -/
theorem getHandlerFactory_of_location
    (hvalid : (getLocations (Registry.ofCalls calls) config).valid = true)
    (hloc : location
      ∈ (getLocations (Registry.ofCalls calls) config).locations) :
    ∃ call statement,
      lastRegistration calls location.handler = some call
      ∧ statement ∈ config
      ∧ statement.tokens
          = ["location".toList, location.path, location.handler]
      ∧ call.createFromConfig statement = some location.args
      ∧ (Registry.ofCalls calls).getHandlerFactory location.handler
          = some call.factory := by
  obtain ⟨statement, hmem, hof⟩ := (mem_getLocations hvalid).mp hloc
  obtain ⟨htokens, -, create, hcreate, hargs⟩ :=
    locationOf_eq_some_iff.mp hof
  obtain ⟨hfactory, hcreate'⟩ := ofCalls_find calls location.handler
  rw [hcreate'] at hcreate
  obtain ⟨call, hcall, rfl⟩ := Option.map_eq_some_iff.mp hcreate
  refine ⟨call, statement, hcall, hmem, htokens, hargs, ?_⟩
  rw [hfactory, hcall, Option.map_some]

/-- A URI with a location gets the handler of the longest one, from the
table that was built in any iteration order, and leaves the table as it
is. -/
theorem getHandler_of_longest
    (hroutes : addRoutes reg config = some routes)
    (hsame : routes'.Same routes)
    (hlongest : LongestLocation reg config req.uri location)
    {factory : Str → A → H}
    (hfactory : reg.getHandlerFactory location.handler = some factory) :
    getHandler routes' req
      = (routes', some (factory location.path location.args)) := by
  obtain ⟨hloc, hstarts⟩ := hlongest
  have hkeys : ∀ path,
      path ∈ (getLocations reg config).locations.map NginxLocation.path
        ↔ path ∈ routes'.keys :=
    fun path => (addRoutes_keys hroutes path).symm.trans hsame.mem_keys.symm
  have hmatch : longestPrefixMatch routes' req.uri = location.path := by
    rw [longestPrefixMatch_eq, longestPrefix_eq (hstarts.congr hkeys)]
  have hold : routes'.emplace location.path none = routes' :=
    Table.emplace_eq_self_iff.mpr
      ((hkeys _).mp (List.mem_map_of_mem hloc))
  have hfind : routes'.find location.path
      = some (some (routeOf reg location)) := by
    rw [hsame.find, addRoutes_find hroutes hloc]
  unfold getHandler
  dsimp only
  rw [hmatch, hold, hfind]
  dsimp only [routeOf]
  rw [hfactory]

/-- A URI without a location has a null pointer dereferenced, and leaves
it in the table. -/
theorem getHandler_of_no_location
    (hroutes : addRoutes reg config = some routes)
    (hsame : routes'.Same routes)
    (hno : ∀ location ∈ (getLocations reg config).locations,
      ¬ location.path <+: req.uri) :
    (getHandler routes' req).2 = none
      ∧ (getHandler routes' req).1 ≠ routes' := by
  have hkeys : ∀ path ∈ routes'.keys, ¬ path <+: req.uri := by
    intro path hpath
    obtain ⟨location, hloc, rfl⟩ := List.mem_map.mp
      ((addRoutes_keys hroutes path).mp (hsame.mem_keys.mp hpath))
    exact hno location hloc
  have hmatch : longestPrefixMatch routes' req.uri = [] := by
    rw [longestPrefixMatch_eq, longestPrefix_eq_nil hkeys]
  have hout : [] ∉ routes'.keys :=
    fun hmem => hkeys [] hmem (List.nil_prefix ..)
  have hfind : (routes'.emplace [] none).find [] = some none := by
    rw [Table.find_emplace_self, Table.find_eq_none_iff.mpr hout,
      Option.none_or]
  have hget : getHandler routes' req = (routes'.emplace [] none, none) := by
    unfold getHandler
    dsimp only
    rw [hmatch, hfind]
  rw [hget]
  exact ⟨rfl, fun heq => hout (Table.emplace_eq_self_iff.mp heq)⟩

-- ================================================================== safety

/-- Every request of the sequence gets a handler, without a null
dereference, and the table after them is the table before them. -/
def DispatchesSafely (routes : Routes A H) (reqs : List Request) : Prop :=
  (∀ answer ∈ (getHandlers routes reqs).2, answer ≠ none)
    ∧ (getHandlers routes reqs).1 = routes

/-- Dispatching a sequence is dispatching its first request and, on the
table after it, the others. -/
theorem dispatchesSafely_cons (routes : Routes A H) (req : Request)
    (reqs : List Request) (hsame : (getHandler routes req).1 = routes) :
    DispatchesSafely routes (req :: reqs)
      ↔ (getHandler routes req).2 ≠ none
        ∧ DispatchesSafely routes reqs := by
  have hfirst : getHandlers routes (req :: reqs)
      = ((getHandlers (getHandler routes req).1 reqs).1,
        (getHandler routes req).2
          :: (getHandlers (getHandler routes req).1 reqs).2) := rfl
  unfold DispatchesSafely
  rw [hfirst, hsame, List.forall_mem_cons, and_assoc]

/-- Dispatcher safety, exactly. Whatever was registered, for every
config the constructor succeeds on, every iteration order of the table
and every sequence of requests: no request of the sequence has a null
entry dereferenced and the table is left as it was built, if and only if
every URI has a configured location path as a prefix. -/
theorem dispatch_safe_iff (calls : List (Registration A H))
    (config : NginxConfig) {routes routes' : Routes A H}
    (hroutes : addRoutes (Registry.ofCalls calls) config = some routes)
    (hsame : routes'.Same routes) (reqs : List Request) :
    DispatchesSafely routes' reqs
      ↔ ∀ req ∈ reqs,
        ∃ location
          ∈ (getLocations (Registry.ofCalls calls) config).locations,
          location.path <+: req.uri := by
  obtain ⟨hvalid, -⟩ := addRoutes_eq_some hroutes
  induction reqs with
  | nil => simp [DispatchesSafely, getHandlers]
  | cons req reqs ih =>
      rw [List.forall_mem_cons]
      by_cases hhas : ∃ location
          ∈ (getLocations (Registry.ofCalls calls) config).locations,
          location.path <+: req.uri
      · obtain ⟨location, hloc, hstarts⟩ := hhas
        obtain ⟨longest, hlongest⟩ := exists_longestLocation hloc hstarts
        obtain ⟨call, -, -, -, -, -, hfactory⟩ :=
          getHandlerFactory_of_location hvalid hlongest.1
        have hget := getHandler_of_longest hroutes hsame hlongest hfactory
        rw [dispatchesSafely_cons routes' req reqs (by rw [hget]), ih, hget]
        exact and_congr_left' (iff_of_true (by simp)
          ⟨location, hloc, hstarts⟩)
      · refine iff_of_false (fun hsafe => ?_) fun h => hhas h.1
        have hno : ∀ location
            ∈ (getLocations (Registry.ofCalls calls) config).locations,
            ¬ location.path <+: req.uri :=
          fun location hloc hstarts => hhas ⟨location, hloc, hstarts⟩
        exact hsafe.1 _ (List.mem_cons_self ..)
          (getHandler_of_no_location hroutes hsame hno).1

-- ============================================================ correctness

/-- Routing. Whatever was registered, for every config the constructor
succeeds on and every URI with a location path as a prefix: the request
gets the handler that the factory registered last under the name of the
longest such location makes of that location's path and args, the args
being what the same registration made of the location's statement. Any
other order of the config's statements, and any iteration order of the
table built from it, give the same handler. -/
theorem routing_correct (calls : List (Registration A H))
    {config : NginxConfig} {routes : Routes A H}
    (hroutes : addRoutes (Registry.ofCalls calls) config = some routes)
    {req : Request}
    (hhas : ∃ location
      ∈ (getLocations (Registry.ofCalls calls) config).locations,
      location.path <+: req.uri) :
    ∃ location call statement,
      location ∈ (getLocations (Registry.ofCalls calls) config).locations
      ∧ location.path <+: req.uri
      ∧ (∀ other
          ∈ (getLocations (Registry.ofCalls calls) config).locations,
          other.path <+: req.uri → other.path ≠ location.path →
          other.path.length < location.path.length)
      ∧ lastRegistration calls location.handler = some call
      ∧ statement ∈ config
      ∧ statement.tokens
          = ["location".toList, location.path, location.handler]
      ∧ call.createFromConfig statement = some location.args
      ∧ ∀ config', config.Perm config' →
        ∃ rebuilt,
          addRoutes (Registry.ofCalls calls) config' = some rebuilt
          ∧ ∀ routes', routes'.Same rebuilt →
            getHandler routes' req
              = (routes', some (call.factory location.path location.args))
      := by
  obtain ⟨hvalid, -⟩ := addRoutes_eq_some hroutes
  obtain ⟨first, hfirst, hstarts⟩ := hhas
  obtain ⟨location, hlongest⟩ := exists_longestLocation hfirst hstarts
  obtain ⟨call, statement, hcall, hmem, htokens, hargs, hfactory⟩ :=
    getHandlerFactory_of_location hvalid hlongest.1
  refine ⟨location, call, statement, hlongest.1, hlongest.2.isPrefix, ?_,
    hcall, hmem, htokens, hargs, ?_⟩
  · intro other hother hpre hne
    have hle := hlongest.2.longest _ (List.mem_map_of_mem hother) hpre
    refine Nat.lt_of_le_of_ne hle fun heq => hne ?_
    -- two prefixes of one length are equal
    exact (List.prefix_of_prefix_length_le hpre hlongest.2.isPrefix
      hle).eq_of_length heq
  · intro config' hperm
    obtain ⟨hvalid', hlocations⟩ := getLocations_perm hperm hvalid
    have hbuilt : addRoutes (Registry.ofCalls calls) config'
        = some ((getLocations (Registry.ofCalls calls) config').locations.foldl
            (addRoute (Registry.ofCalls calls)) Table.empty) := by
      unfold addRoutes
      dsimp only
      rw [if_pos hvalid']
    refine ⟨_, hbuilt, fun routes' hsame => ?_⟩
    have hlongest' : LongestLocation (Registry.ofCalls calls) config' req.uri
        location :=
      ⟨hlocations.mem_iff.mp hlongest.1, hlongest.2.congr fun path =>
        (hlocations.map NginxLocation.path).mem_iff⟩
    exact getHandler_of_longest hbuilt hsame hlongest' hfactory

-- =================================================================== tests

/-- One handler, whose args are its statement's words and whose handler
is the path it was made for. -/
def echoCalls : List (Registration (List Str) Str) :=
  [{ name := "EchoHandler".toList
     factory := fun path _ => path
     createFromConfig := fun statement => some statement.tokens }]

/-- `location /echo EchoHandler;` -/
def echoConfig : NginxConfig :=
  [.mk ["location".toList, "/echo".toList, "EchoHandler".toList] none]

theorem dispatch_safe_echo :
    ∃ routes, addRoutes (Registry.ofCalls echoCalls) echoConfig
        = some routes
      ∧ DispatchesSafely routes [{ uri := "/echo/x".toList }] := by
  have hbuilt : (addRoutes (Registry.ofCalls echoCalls)
      echoConfig).isSome := by decide
  obtain ⟨routes, hroutes⟩ := Option.isSome_iff_exists.mp hbuilt
  refine ⟨routes, hroutes, (dispatch_safe_iff _ _ hroutes
    (Table.Same.refl routes) _).mpr ?_⟩
  intro req hreq
  obtain rfl := List.mem_singleton.mp hreq
  exact ⟨⟨"/echo".toList, "EchoHandler".toList, _⟩, List.mem_singleton.mpr rfl,
    ⟨"/x".toList, rfl⟩⟩

/-- A second location, above the first one. -/
def nestedConfig : NginxConfig :=
  .mk ["location".toList, "/".toList, "EchoHandler".toList] none
    :: echoConfig

/-- Its two locations. -/
theorem nestedConfig_paths :
    (getLocations (Registry.ofCalls echoCalls) nestedConfig).locations.map
      NginxLocation.path = ["/".toList, "/echo".toList] := by
  decide

theorem routing_nested :
    ∃ routes, addRoutes (Registry.ofCalls echoCalls) nestedConfig
        = some routes
      ∧ getHandler routes { uri := "/echo/x".toList }
        = (routes, some "/echo".toList) := by
  have hbuilt : (addRoutes (Registry.ofCalls echoCalls)
      nestedConfig).isSome := by decide
  obtain ⟨routes, hroutes⟩ := Option.isSome_iff_exists.mp hbuilt
  have hecho : "/echo".toList
      ∈ (getLocations (Registry.ofCalls echoCalls)
        nestedConfig).locations.map NginxLocation.path := by
    rw [nestedConfig_paths]
    decide
  obtain ⟨echo, hmem, hpath⟩ := List.mem_map.mp hecho
  have hstarts : echo.path <+: ({ uri := "/echo/x".toList } : Request).uri :=
    ⟨"/x".toList, by rw [hpath]; rfl⟩
  obtain ⟨location, call, -, hloc, -, hlonger, hcall, -, -, -, horder⟩ :=
    routing_correct echoCalls hroutes ⟨echo, hmem, hstarts⟩
  obtain ⟨rebuilt, hrebuilt, hget⟩ :=
    horder nestedConfig (List.Perm.refl _)
  obtain rfl : routes = rebuilt := by
    rw [hroutes] at hrebuilt
    exact Option.some.inj hrebuilt
  obtain rfl : call = echoCalls.head (by decide) :=
    List.mem_singleton.mp
      (List.mem_reverse.mp (List.mem_of_find?_eq_some hcall))
  have hlongest : location.path = "/echo".toList := by
    have hpaths := List.mem_map_of_mem (f := NginxLocation.path) hloc
    rw [nestedConfig_paths] at hpaths
    rcases List.mem_pair.mp hpaths with hroot | hecho
    · have hlt := hlonger echo hmem hstarts
        (by rw [hpath, hroot]; decide)
      rw [hpath, hroot] at hlt
      exact absurd hlt (by decide)
    · exact hecho
  refine ⟨routes, hroutes, ?_⟩
  rw [hget routes (Table.Same.refl routes), ← hlongest]
  rfl

/-- The request target `*` has no location. -/
theorem dispatch_star_unsafe :
    ∃ routes, addRoutes (Registry.ofCalls echoCalls) echoConfig
        = some routes
      ∧ ¬ DispatchesSafely routes [{ uri := "*".toList }] := by
  refine ⟨_, rfl, fun hsafe => ?_⟩
  exact hsafe.1 none (List.mem_singleton.mpr rfl) rfl

end Creeper
