/-
What `get_locations` returns.

The loop stops at the first statement it refuses and looks for a
duplicate among the locations before it; `locationOf` is what it makes
of one statement on its own. `getLocations_valid_iff` says when the loop
gets to its end: every location statement makes a location and no path
comes twice, and then the locations are those of the statements, in
order (`getLocations_locations`). Both sides of the condition are about
the statements as a set, so a config keeps its verdict and its locations
when its statements change places (`getLocations_perm`). With the rules
spelled out statement by statement this is `getLocations_characterised`.

The other half is the registry. Its two maps are written together, so
they agree on every name with the last registration under it
(`ofCalls_find`).
-/
import Creeper.Config
import Mathlib.Data.List.Induction
import Mathlib.Data.List.Nodup
import Mathlib.Data.List.Perm.Basic

namespace Creeper

open Lib

variable {A H : Type} {reg : Registry A H} {config config' : NginxConfig}

-- ============================================================ the registry

/-- The last registration under a name. -/
def lastRegistration (calls : List (Registration A H)) (name : Str) :
    Option (Registration A H) :=
  calls.reverse.find? fun call => call.name = name

theorem lastRegistration_concat (calls : List (Registration A H))
    (call : Registration A H) (name : Str) :
    lastRegistration (calls ++ [call]) name
      = if call.name = name then some call
        else lastRegistration calls name := by
  unfold lastRegistration
  rw [List.reverse_concat]
  by_cases hname : call.name = name
  · rw [if_pos hname, List.find?_cons_of_pos (by simpa using hname)]
  · rw [if_neg hname, List.find?_cons_of_neg (by simpa using hname)]

/-- A registration is what the factory map has under its name. -/
theorem getHandlerFactory_registerHandler (reg : Registry A H) (name : Str)
    (factory : Str → A → H)
    (createFromConfig : NginxConfigStatement → Option A) (name' : Str) :
    (reg.registerHandler name factory createFromConfig).getHandlerFactory
        name'
      = if name = name' then some factory
        else reg.getHandlerFactory name' := by
  show upsert reg.factoryMap name factory name' = _
  by_cases hname : name = name'
  · rw [if_pos hname, hname, upsert_same]
  · rw [if_neg hname, upsert_ne _ fun h => hname h.symm]
    rfl

/-- The same call writes the other map under the same name. -/
theorem getCreateFromConfig_registerHandler (reg : Registry A H)
    (name : Str) (factory : Str → A → H)
    (createFromConfig : NginxConfigStatement → Option A) (name' : Str) :
    (reg.registerHandler name factory createFromConfig).getCreateFromConfig
        name'
      = if name = name' then some createFromConfig
        else reg.getCreateFromConfig name' := by
  show upsert reg.createFromConfigMap name createFromConfig name' = _
  by_cases hname : name = name'
  · rw [if_pos hname, hname, upsert_same]
  · rw [if_neg hname, upsert_ne _ fun h => hname h.symm]
    rfl

/-- The two maps after the calls: what the last call under a name
brought. -/
theorem ofCalls_find (calls : List (Registration A H)) (name : Str) :
    (Registry.ofCalls calls).getHandlerFactory name
        = (lastRegistration calls name).map Registration.factory
      ∧ (Registry.ofCalls calls).getCreateFromConfig name
        = (lastRegistration calls name).map
            Registration.createFromConfig := by
  induction calls using List.reverseRecOn with
  | nil => exact ⟨rfl, rfl⟩
  | append_singleton calls call ih =>
      obtain ⟨ihFactory, ihCreate⟩ := ih
      have hlast : Registry.ofCalls (calls ++ [call])
          = (Registry.ofCalls calls).registerHandler call.name call.factory
              call.createFromConfig := by
        unfold Registry.ofCalls
        rw [List.foldl_concat]
      rw [hlast, getHandlerFactory_registerHandler,
        getCreateFromConfig_registerHandler, lastRegistration_concat,
        ihFactory, ihCreate]
      split
      · exact ⟨rfl, rfl⟩
      · exact ⟨rfl, rfl⟩

-- =========================================================== one statement

/-- The statement is a location directive, well formed or not. -/
def NginxConfigStatement.isLocation (statement : NginxConfigStatement) :
    Prop :=
  statement.tokens.head? = some "location".toList

instance (statement : NginxConfigStatement) :
    Decidable statement.isLocation :=
  inferInstanceAs (Decidable (_ = _))

/-- A path the loop lets through. -/
def PathAllowed (path : Str) : Prop :=
  quoted path = false
    ∧ (path.getLast? = some '/' → path = "/".toList)
    ∧ path.head? = some '/'

instance (path : Str) : Decidable (PathAllowed path) :=
  inferInstanceAs (Decidable (_ ∧ _ ∧ _))

/-- The location a statement stands for, if the loop would take it. -/
def locationOf (reg : Registry A H) (statement : NginxConfigStatement) :
    Option (NginxLocation A) :=
  match statement.tokens with
  | [keyword, path, handler] =>
      if keyword = "location".toList ∧ PathAllowed path then
        (reg.getCreateFromConfig handler).bind fun createFromConfig =>
          (createFromConfig statement).map fun args => ⟨path, handler, args⟩
      else none
  | _ => none

/-- A location comes from a directive of three words with an allowed
path and a registered handler that makes args of it. -/
theorem locationOf_eq_some_iff {statement : NginxConfigStatement}
    {location : NginxLocation A} :
    locationOf reg statement = some location
      ↔ statement.tokens
          = ["location".toList, location.path, location.handler]
        ∧ PathAllowed location.path
        ∧ ∃ createFromConfig,
          reg.getCreateFromConfig location.handler = some createFromConfig
          ∧ createFromConfig statement = some location.args := by
  unfold locationOf
  constructor
  · intro hsome
    split at hsome
    · next keyword path handler htokens =>
      split at hsome
      · next hcond =>
        obtain ⟨rfl, hallowed⟩ := hcond
        obtain ⟨create, hcreate, hmap⟩ := Option.bind_eq_some_iff.mp hsome
        obtain ⟨args, hargs, rfl⟩ := Option.map_eq_some_iff.mp hmap
        exact ⟨htokens, hallowed, create, hcreate, hargs⟩
      · cases hsome
    · cases hsome
  · intro hwell
    obtain ⟨htokens, hallowed, create, hcreate, hargs⟩ := hwell
    rw [htokens]
    simp only [hallowed, and_self, if_true, hcreate, hargs,
      Option.bind_some, Option.map_some]

/-- Only location directives make locations. -/
theorem isLocation_of_locationOf {statement : NginxConfigStatement}
    {location : NginxLocation A}
    (h : locationOf reg statement = some location) :
    statement.isLocation := by
  obtain ⟨htokens, -⟩ := locationOf_eq_some_iff.mp h
  unfold NginxConfigStatement.isLocation
  rw [htokens]
  rfl

/-- A statement of three words is taken on its merits. -/
theorem locationOf_of_tokens {statement : NginxConfigStatement}
    {keyword path handler : Str}
    (htokens : statement.tokens = [keyword, path, handler]) :
    locationOf reg statement
      = if keyword = "location".toList ∧ PathAllowed path then
          (reg.getCreateFromConfig handler).bind fun createFromConfig =>
            (createFromConfig statement).map fun args =>
              ⟨path, handler, args⟩
        else none := by
  unfold locationOf
  split
  · next htokens' => rw [htokens] at htokens'; cases htokens'; rfl
  · next hother => exact absurd htokens (hother _ _ _)

/-- No other number of words makes a location. -/
theorem locationOf_of_length {statement : NginxConfigStatement}
    (hlength : statement.tokens.length ≠ 3) :
    locationOf reg statement = none := by
  unfold locationOf
  split
  · next htokens => exact absurd (by rw [htokens]; rfl) hlength
  · rfl

/-- The three tests of the path together. -/
theorem pathTests_eq {β : Type} (path : Str) (refused taken : β) :
    (if quoted path then refused
      else if path.getLast? = some '/' ∧ path ≠ "/".toList then refused
      else if path.head? ≠ some '/' then refused
      else taken)
    = if PathAllowed path then taken else refused := by
  by_cases hquoted : quoted path
  · have hno : ¬ PathAllowed path := by
      intro hallowed
      obtain ⟨h, -⟩ := hallowed
      rw [hquoted] at h
      cases h
    rw [if_pos hquoted, if_neg hno]
  · rw [if_neg hquoted]
    by_cases htrailing : path.getLast? = some '/' ∧ path ≠ "/".toList
    · have hno : ¬ PathAllowed path :=
        fun h => htrailing.2 (h.2.1 htrailing.1)
      rw [if_pos htrailing, if_neg hno]
    · rw [if_neg htrailing]
      by_cases hstart : path.head? ≠ some '/'
      · have hno : ¬ PathAllowed path := fun h => hstart h.2.2
        rw [if_pos hstart, if_neg hno]
      · have hyes : PathAllowed path :=
          ⟨eq_false_of_ne_true hquoted,
            fun hlast => not_not.mp fun hne => htrailing ⟨hlast, hne⟩,
            not_not.mp hstart⟩
        rw [if_neg hstart, if_pos hyes]

/-- One turn of the loop. -/
theorem getLocationsLoop_cons (statement : NginxConfigStatement)
    (rest : NginxConfig) (locations : List (NginxLocation A)) :
    getLocationsLoop reg (statement :: rest) locations
      = if statement.isLocation then
          match locationOf reg statement with
          | none => .invalid
          | some location =>
              if location.path ∈ locations.map NginxLocation.path then
                .invalid
              else getLocationsLoop reg rest (locations ++ [location])
        else getLocationsLoop reg rest locations := by
  rw [getLocationsLoop]
  split
  · next keyword path handler htokens =>
    have hkeyword : statement.isLocation ↔ keyword = "location".toList := by
      unfold NginxConfigStatement.isLocation
      rw [htokens, List.head?_cons, Option.some.injEq]
    have hdup : (∃ existing ∈ locations, path = existing.path)
        ↔ path ∈ locations.map NginxLocation.path := by
      rw [List.mem_map]
      exact ⟨fun ⟨l, hl, he⟩ => ⟨l, hl, he.symm⟩,
        fun ⟨l, hl, he⟩ => ⟨l, hl, he.symm⟩⟩
    rw [locationOf_of_tokens htokens, pathTests_eq]
    by_cases hk : keyword = "location".toList
    · rw [if_pos hk, if_pos (hkeyword.mpr hk)]
      by_cases hallowed : PathAllowed path
      · rw [if_pos hallowed, if_pos (And.intro hk hallowed)]
        cases reg.getCreateFromConfig handler with
        | none =>
            rw [ite_self]
            rfl
        | some createFromConfig =>
            rw [Option.bind_some]
            cases hargs : createFromConfig statement with
            | none => simp only [hargs, Option.map_none, ite_self]
            | some args => simp only [hargs, Option.map_some, hdup]
      · rw [if_neg hallowed, if_neg fun h => hallowed h.2]
    · rw [if_neg hk, if_neg (hkeyword.not.mpr hk)]
  · next tokens hother =>
    have hlength : statement.tokens.length ≠ 3 := by
      intro hlength
      obtain ⟨a, b, c, habc⟩ := List.length_eq_three.mp hlength
      exact hother a b c habc
    rw [locationOf_of_length hlength]
    rfl

/-- The loop from any point: it gets to its end when every location
directive left makes a location and no path comes twice. -/
theorem getLocationsLoop_spec (config : NginxConfig)
    {locations : List (NginxLocation A)}
    (hnodup : (locations.map NginxLocation.path).Nodup) :
    ((getLocationsLoop reg config locations).valid = true
        ↔ (∀ statement ∈ config, statement.isLocation →
            (locationOf reg statement).isSome)
          ∧ ((locations ++ config.filterMap (locationOf reg)).map
              NginxLocation.path).Nodup)
      ∧ (getLocationsLoop reg config locations).locations
        = if (getLocationsLoop reg config locations).valid then
            locations ++ config.filterMap (locationOf reg)
          else [] := by
  induction config generalizing locations with
  | nil => simp [getLocationsLoop, hnodup]
  | cons statement rest ih =>
      rw [getLocationsLoop_cons]
      split
      · next hloc =>
        cases hof : locationOf reg statement with
        | none =>
            refine ⟨iff_of_false Bool.false_ne_true fun h => ?_, rfl⟩
            have hsome := h.1 statement (List.mem_cons_self ..) hloc
            rw [hof] at hsome
            cases hsome
        | some location =>
            by_cases hdup : location.path
                ∈ locations.map NginxLocation.path
            · simp only [if_pos hdup]
              refine ⟨iff_of_false Bool.false_ne_true fun h => ?_, rfl⟩
              -- the path is among those before it, so it comes twice
              have htwice := h.2
              rw [List.filterMap_cons_some hof, List.map_append,
                List.map_cons, List.nodup_middle] at htwice
              exact (List.nodup_cons.mp htwice).1
                (List.mem_append_left _ hdup)
            · simp only [if_neg hdup]
              have hnodup' : ((locations ++ [location]).map
                  NginxLocation.path).Nodup := by
                rw [List.map_append, List.map_singleton,
                  ← List.concat_eq_append]
                exact hnodup.concat hdup
              obtain ⟨hvalid, hlocations⟩ := ih hnodup'
              rw [List.filterMap_cons_some hof,
                List.append_cons locations location (rest.filterMap _)]
              refine ⟨hvalid.trans (and_congr_left' ?_), hlocations⟩
              rw [List.forall_mem_cons]
              exact (and_iff_right fun _ => by rw [hof]; rfl).symm
      · next hloc =>
        have hof : locationOf reg statement = none := by
          cases hof : locationOf reg statement with
          | none => rfl
          | some location => exact absurd (isLocation_of_locationOf hof) hloc
        obtain ⟨hvalid, hlocations⟩ := ih hnodup
        rw [List.filterMap_cons_none hof]
        refine ⟨hvalid.trans (and_congr_left' ?_), hlocations⟩
        rw [List.forall_mem_cons]
        exact (and_iff_right fun h => absurd h hloc).symm

-- ============================================================ get_locations

/-- The loop from its beginning. -/
theorem getLocations_spec (reg : Registry A H) (config : NginxConfig) :
    ((getLocations reg config).valid = true
        ↔ (∀ statement ∈ config, statement.isLocation →
            (locationOf reg statement).isSome)
          ∧ ((config.filterMap (locationOf reg)).map
              NginxLocation.path).Nodup)
      ∧ (getLocations reg config).locations
        = if (getLocations reg config).valid then
            config.filterMap (locationOf reg)
          else [] := by
  have hstart : (([] : List (NginxLocation A)).map
      NginxLocation.path).Nodup := List.nodup_nil
  exact getLocationsLoop_spec config hstart

/-- `get_locations` succeeds when every location directive makes a
location and no path comes twice. -/
theorem getLocations_valid_iff :
    (getLocations reg config).valid = true
      ↔ (∀ statement ∈ config, statement.isLocation →
          (locationOf reg statement).isSome)
        ∧ ((config.filterMap (locationOf reg)).map
            NginxLocation.path).Nodup :=
  (getLocations_spec reg config).1

/-- Then it returns the locations of the statements, in their order. -/
theorem getLocations_locations (h : (getLocations reg config).valid = true) :
    (getLocations reg config).locations
      = config.filterMap (locationOf reg) :=
  (getLocations_spec reg config).2.trans (if_pos h)

/-- Paths come once. -/
theorem getLocations_nodup (h : (getLocations reg config).valid = true) :
    ((getLocations reg config).locations.map NginxLocation.path).Nodup := by
  rw [getLocations_locations h]
  exact (getLocations_valid_iff.mp h).2

/-- A location is in the result when a statement of the config stands
for it. -/
theorem mem_getLocations (h : (getLocations reg config).valid = true)
    {location : NginxLocation A} :
    location ∈ (getLocations reg config).locations
      ↔ ∃ statement ∈ config, locationOf reg statement = some location := by
  rw [getLocations_locations h, List.mem_filterMap]

/-- The order of the statements decides neither the verdict nor, but for
their order, the locations. -/
theorem getLocations_perm (hperm : config.Perm config')
    (h : (getLocations reg config).valid = true) :
    (getLocations reg config').valid = true
      ∧ ((getLocations reg config).locations).Perm
          (getLocations reg config').locations := by
  obtain ⟨hall, hnodup⟩ := getLocations_valid_iff.mp h
  have hfilter := hperm.filterMap (locationOf reg)
  have h' : (getLocations reg config').valid = true := by
    refine getLocations_valid_iff.mpr ⟨fun statement hmem => ?_, ?_⟩
    · exact hall statement (hperm.mem_iff.mpr hmem)
    · exact (hfilter.map NginxLocation.path).nodup_iff.mp hnodup
  refine ⟨h', ?_⟩
  rw [getLocations_locations h, getLocations_locations h']
  exact hfilter

-- =============================================================== the rules

/-- What `get_locations` asks of a location statement: three words, a
path that is not quoted, starts with a slash and ends in one only if it
is nothing else, and a registered handler that makes args of the
statement. -/
structure StandsFor (reg : Registry A H) (statement : NginxConfigStatement)
    (location : NginxLocation A) : Prop where
  words : statement.tokens
    = ["location".toList, location.path, location.handler]
  unquoted : quoted location.path = false
  start : location.path.head? = some '/'
  trailing : location.path.getLast? = some '/' → location.path = "/".toList
  args : ∃ createFromConfig,
    reg.getCreateFromConfig location.handler = some createFromConfig
      ∧ createFromConfig statement = some location.args

/-- `tokens_[1]` of a location statement. -/
def NginxConfigStatement.path (statement : NginxConfigStatement) : Str :=
  statement.tokens.getD 1 []

/-- The location statements, in document order. -/
def locationStatements (config : NginxConfig) : NginxConfig :=
  config.filter fun statement => statement.isLocation

/-- The loop takes a statement by these rules. -/
theorem locationOf_eq_some_iff_standsFor {statement : NginxConfigStatement}
    {location : NginxLocation A} :
    locationOf reg statement = some location
      ↔ StandsFor reg statement location := by
  rw [locationOf_eq_some_iff]
  constructor
  · intro hwell
    obtain ⟨hwords, ⟨hunquoted, htrailing, hstart⟩, hargs⟩ := hwell
    exact ⟨hwords, hunquoted, hstart, htrailing, hargs⟩
  · intro hrules
    exact ⟨hrules.words, ⟨hrules.unquoted, hrules.trailing, hrules.start⟩,
      hrules.args⟩

/-- The path of the location is the path of the statement. -/
theorem StandsFor.path_eq {statement : NginxConfigStatement}
    {location : NginxLocation A} (h : StandsFor reg statement location) :
    statement.path = location.path := by
  unfold NginxConfigStatement.path
  rw [h.words]
  rfl

/-- The location statements of a config, statement by statement. -/
theorem locationStatements_cons (statement : NginxConfigStatement)
    (rest : NginxConfig) :
    locationStatements (statement :: rest)
      = if statement.isLocation then statement :: locationStatements rest
        else locationStatements rest := by
  unfold locationStatements
  rw [List.filter_cons]
  simp only [decide_eq_true_eq]

/-- Where every location statement makes a location, the locations are
those of the location statements one by one. -/
theorem forall₂_locations
    (hall : ∀ statement ∈ config, statement.isLocation →
      (locationOf reg statement).isSome) :
    List.Forall₂ (StandsFor reg) (locationStatements config)
      (config.filterMap (locationOf reg)) := by
  induction config with
  | nil => exact .nil
  | cons statement rest ih =>
      have hrest := ih fun other hmem => hall other (by simp [hmem])
      rw [locationStatements_cons]
      cases hof : locationOf reg statement with
      | some location =>
          rw [if_pos (isLocation_of_locationOf hof),
            List.filterMap_cons_some hof]
          exact .cons (locationOf_eq_some_iff_standsFor.mp hof) hrest
      | none =>
          have hnot : ¬ statement.isLocation := by
            intro hloc
            have hsome := hall statement (by simp) hloc
            rw [hof] at hsome
            cases hsome
          rw [if_neg hnot, List.filterMap_cons_none hof]
          exact hrest

/-- Statements and locations that correspond have the same paths. -/
theorem map_path_eq {statements : NginxConfig}
    {locations : List (NginxLocation A)}
    (h : List.Forall₂ (StandsFor reg) statements locations) :
    statements.map NginxConfigStatement.path
      = locations.map NginxLocation.path := by
  induction h with
  | nil => rfl
  | cons hhead _ ih =>
      rw [List.map_cons, List.map_cons, hhead.path_eq, ih]

/-- `get_locations` succeeds exactly on the configs whose location
statements keep the rules and have different paths. Its locations are
then those of the location statements, in document order, and it returns
none otherwise. -/
theorem getLocations_characterised (reg : Registry A H)
    (config : NginxConfig) :
    ((getLocations reg config).valid = true
        ↔ (∀ statement ∈ config, statement.isLocation →
            ∃ location, StandsFor reg statement location)
          ∧ ((locationStatements config).map
              NginxConfigStatement.path).Nodup)
      ∧ ((getLocations reg config).valid = true →
          List.Forall₂ (StandsFor reg) (locationStatements config)
            (getLocations reg config).locations)
      ∧ ((getLocations reg config).valid = false →
          (getLocations reg config).locations = []) := by
  have hmakes : (∀ statement ∈ config, statement.isLocation →
        ∃ location, StandsFor reg statement location)
      ↔ ∀ statement ∈ config, statement.isLocation →
        (locationOf reg statement).isSome := by
    simp only [Option.isSome_iff_exists, locationOf_eq_some_iff_standsFor]
  refine ⟨?_, fun hvalid => ?_, fun hinvalid => ?_⟩
  · rw [getLocations_valid_iff, hmakes]
    apply and_congr_right
    intro hall
    rw [map_path_eq (forall₂_locations hall)]
  · rw [getLocations_locations hvalid]
    exact forall₂_locations (getLocations_valid_iff.mp hvalid).1
  · rw [(getLocations_spec reg config).2, hinvalid]
    rfl

end Creeper
