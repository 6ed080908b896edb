/-
Under which locations the entity handler finds entity and id.

The path of a location becomes part of a regular expression as it is, and
a slash is put behind it. A path of literals and dots matches itself, so
under any such path but "/" the URIs of entities and ids are read as they
are meant (`worksUnder_of_literal`). Under "/" the pattern wants two
slashes (`not_worksUnder_root`), a path may leave a pattern that is not
well formed, and a path with a plus, a parenthesis or an anchor in it
matches no text that has it (`not_worksUnder_of_mark`).
-/
import Creeper.Proofs.Crud.Patterns
import Creeper.Proofs.Dispatch.Locations
import Mathlib.Data.Bool.AllAny

namespace Creeper

open Lib

variable {path entity id rest : Str}

-- ================================================================== the law

/-- The URI of an entity under a location. -/
def entityUri (path entity : Str) : Str :=
  if path = "/".toList then '/' :: entity else path ++ '/' :: entity

/-- The URI of an id of an entity. -/
def idUri (path entity id : Str) : Str := entityUri path entity ++ '/' :: id

/-- The handler finds the entity and the id of every URI under the
location, and no id where there is none. -/
def WorksUnder (path : Str) : Prop :=
  ∀ entity id, IsSegment entity → IsSegment id →
    extractEntityUnder path (entityUri path entity) = some entity
      ∧ extractEntityUnder path (idUri path entity id) = some entity
      ∧ extractIdUnder path (idUri path entity id) = some id
      ∧ extractIdUnder path (entityUri path entity) = some []

/-- No character of the path means anything in a regular expression, a
dot apart. -/
def LiteralPath (path : Str) : Prop := ∀ c ∈ path, Pattern.IsLiteral c

/-- No character does, but for a plus, a parenthesis or an anchor, and
there is one of these. -/
def MarkedPath (path : Str) : Prop :=
  (∀ c ∈ path, Pattern.IsSolid c)
    ∧ ∃ c ∈ path, c ∈ Pattern.syntaxCharacters

-- ================================================================== literals

/-- A base of literals matches itself. -/
theorem passesBase_self (base t : Str) :
    passesBase base (base ++ t) = true := by
  unfold passesBase
  induction base with
  | nil => rfl
  | cons c base ih =>
      rw [List.map_cons, List.cons_append, passAll,
        Pattern.testOf_holds_self, ih]
      rfl

/-- What is captured behind the base. -/
theorem matchUnder_self (f : Str → Option Str) (base t : Str) :
    matchUnder f base (base ++ t) = f t := by
  rw [matchUnder, if_pos (passesBase_self base t), List.drop_left]

theorem firstSegment_eq (hentity : IsSegment entity)
    (hrest : rest = [] ∨ rest.head? = some '/') :
    firstSegment ('/' :: (entity ++ rest)) = some entity := by
  have hmatch := matchSegment_eq_some_iff.mpr ⟨rfl, hentity, hrest⟩
  rw [firstSegment, hmatch]
  rfl

theorem secondSegment_eq (hentity : IsSegment entity)
    (hrest : rest = [] ∨ rest.head? = some '/') :
    secondSegment ('/' :: (entity ++ rest)) = firstSegment rest := by
  have hmatch := matchSegment_eq_some_iff.mpr ⟨rfl, hentity, hrest⟩
  rw [secondSegment, hmatch]
  rfl

/-- Where there is no slash there is no segment. -/
theorem firstSegment_of_not_mem {s : Str} (h : '/' ∉ s) :
    firstSegment s = none ∧ secondSegment s = none := by
  have hno : s.head? ≠ some '/' := by
    intro hhead
    obtain ⟨t, ht⟩ := List.head?_eq_some_iff.mp hhead
    rw [ht] at h
    exact h (List.mem_cons_self ..)
  unfold firstSegment secondSegment
  rw [matchSegment_of_not hno]
  exact ⟨rfl, rfl⟩

/-- Further on in the URI of an entity there is no slash as far behind as
the base is long. -/
theorem drop_entityUri (base : Str) {s : Str} (hentity : IsSegment entity)
    (hs : s <:+ base ++ '/' :: entity)
    (hne : s ≠ base ++ '/' :: entity) : '/' ∉ s.drop base.length := by
  obtain ⟨before, hbefore⟩ := hs
  cases before with
  | nil => exact absurd hbefore hne
  | cons c before =>
      have hdrop : s.drop base.length = entity.drop before.length := by
        calc s.drop base.length
            = ((c :: before) ++ s).drop
              ((c :: before).length + base.length) := by
              rw [List.drop_length_add_append]
          _ = (base ++ '/' :: entity).drop
              (base.length + (before.length + 1)) := by
              rw [hbefore, List.length_cons, Nat.add_comm]
          _ = entity.drop before.length := by
              rw [List.drop_length_add_append, List.drop_succ_cons]
      rw [hdrop]
      intro hmem
      exact hentity.2 (List.mem_of_mem_drop hmem)

/-- A search under literals takes the front if the front matches. -/
theorem extractEntityUnder_front (hliteral : LiteralPath path)
    (hentity : IsSegment entity)
    (hrest : rest = [] ∨ rest.head? = some '/') :
    extractEntityUnder path (path ++ '/' :: (entity ++ rest))
      = some entity := by
  have hmatch : matchUnder firstSegment path
      (path ++ '/' :: (entity ++ rest)) = some entity := by
    rw [matchUnder_self, firstSegment_eq hentity hrest]
  rw [(extractUnder_of_literal hliteral _).1, search_of_front hmatch]
  rfl

theorem extractIdUnder_front (hliteral : LiteralPath path)
    (hentity : IsSegment entity) (hid : IsSegment id) :
    extractIdUnder path (path ++ '/' :: (entity ++ '/' :: id))
      = some id := by
  have hsegment : firstSegment ('/' :: id) = some id := by
    have hfirst := firstSegment_eq hid (Or.inl rfl)
    rw [List.append_nil] at hfirst
    exact hfirst
  have hmatch : matchUnder secondSegment path
      (path ++ '/' :: (entity ++ '/' :: id)) = some id := by
    rw [matchUnder_self, secondSegment_eq hentity (Or.inr rfl), hsegment]
  rw [(extractUnder_of_literal hliteral _).2, search_of_front hmatch]
  rfl

/-- No place has a base and what is captured behind it, if no place has
it that far behind. -/
theorem search_matchUnder_eq_none (f : Str → Option Str) (base uri : Str)
    (h : ∀ s, s <:+ uri → f (s.drop base.length) = none) :
    uri.tails.findSome? (matchUnder f base) = none := by
  rw [List.findSome?_eq_none_iff]
  intro s hs
  unfold matchUnder
  split
  · exact h s ((List.mem_tails ..).mp hs)
  · rfl

/-- The URI of an entity has no id. -/
theorem extractIdUnder_entity (hliteral : LiteralPath path)
    (hentity : IsSegment entity) :
    extractIdUnder path (path ++ '/' :: entity) = some [] := by
  have hnone := search_matchUnder_eq_none secondSegment path
    (path ++ '/' :: entity) fun s hs => by
      by_cases heq : s = path ++ '/' :: entity
      · have hsecond := secondSegment_eq hentity (Or.inl rfl)
        rw [List.append_nil] at hsecond
        rw [heq, List.drop_left, hsecond]
        rfl
      · exact (firstSegment_of_not_mem (drop_entityUri path hentity hs heq)).2
  rw [(extractUnder_of_literal hliteral _).2, hnone]
  rfl

/-- Under a path of literals and dots that is not the root the URIs are
read as they are meant. -/
theorem worksUnder_of_literal (hroot : path ≠ "/".toList)
    (hliteral : LiteralPath path) : WorksUnder path := by
  intro entity id hentity hid
  have hfront := extractEntityUnder_front hliteral hentity (Or.inl rfl)
  rw [List.append_nil] at hfront
  unfold idUri entityUri
  rw [if_neg hroot, List.append_assoc, List.cons_append]
  exact ⟨hfront, extractEntityUnder_front hliteral hentity (Or.inr rfl),
    extractIdUnder_front hliteral hentity hid,
    extractIdUnder_entity hliteral hentity⟩

-- =================================================================== the root

/-- Under the root no entity is found. -/
theorem extractEntityUnder_root (hentity : IsSegment entity) :
    extractEntityUnder "/".toList ('/' :: entity) = some [] := by
  have hliteral : LiteralPath "/".toList := by
    intro c hc
    rw [List.mem_singleton.mp hc]
    decide
  have hnone := search_matchUnder_eq_none firstSegment "/".toList
    ('/' :: entity) fun s hs => by
      apply (firstSegment_of_not_mem _).1
      intro hmem
      by_cases heq : s = '/' :: entity
      · rw [heq] at hmem
        exact hentity.2 hmem
      · exact drop_entityUri [] hentity hs heq (List.mem_of_mem_drop hmem)
  rw [(extractUnder_of_literal hliteral _).1, hnone]
  rfl

/-- A segment to try a location with. -/
theorem isSegment_e : IsSegment "e".toList := by decide

theorem not_worksUnder_root : ¬ WorksUnder "/".toList := by
  intro hworks
  have hentity := (hworks "e".toList "e".toList isSegment_e isSegment_e).1
  unfold entityUri at hentity
  rw [if_pos rfl, extractEntityUnder_root isSegment_e] at hentity
  cases hentity

-- ================================================================ throwing

/-- The patterns of a location can be compiled. -/
def Compiles (path : Str) : Prop :=
  (Pattern.compile (path ++ entitySuffix)).isSome
    ∧ (Pattern.compile (path ++ idSuffix)).isSome

/-- A constructor that throws answers nothing. -/
theorem compiles_of_worksUnder (hworks : WorksUnder path) :
    Compiles path := by
  obtain ⟨hentity, -, hid, -⟩ :=
    hworks "e".toList "e".toList isSegment_e isSegment_e
  unfold extractEntityUnder searchPattern at hentity
  unfold extractIdUnder searchPattern at hid
  obtain ⟨_, hre, -⟩ := Option.map_eq_some_iff.mp hentity
  obtain ⟨_, hre', -⟩ := Option.map_eq_some_iff.mp hid
  unfold Compiles
  rw [hre, hre']
  exact ⟨rfl, rfl⟩

-- ==================================================================== marks

/-- What a marked path and the tail of `extract_entity` compile to begins
with a solid expression that has as many characters as the path has
without its marks, and a slash. -/
theorem compile_solid (hsolid : ∀ c ∈ path, Pattern.IsSolid c)
    {re : Pattern.Compiled}
    (h : Pattern.compile (path ++ entitySuffix) = some re) :
    ∃ rs tail, re.regex = .sequence (rs ++ .one slashTest :: tail)
      ∧ (Regex.sequence rs).Solid (· ∉ Pattern.syntaxCharacters)
      ∧ (Regex.sequence rs).size
        = path.countP (· ∉ Pattern.syntaxCharacters) := by
  have hquery : '?' ∉ path := fun hmem =>
    absurd (hsolid _ hmem) (by decide)
  rw [Pattern.compile_append hquery (by decide)
    (fun c hc t ht => Pattern.readToken_solid (hsolid c hc) ht)
    readTokens_entitySuffix] at h
  obtain ⟨b, hb, htail⟩ := Option.bind_eq_some_iff.mp h
  have hread := Pattern.Builder.solid_start.foldlM
    (fun c hc => ⟨hsolid c hc, fun h => h⟩) hb
  rw [Nat.zero_add] at hread
  -- the tail opens one parenthesis and closes it
  have hfinish : Pattern.Builder.finish
      ⟨{ b.frame with
          terms := (true, .group (b.groups + 1) (.sequence [segmentRegex]))
            :: (true, .one slashTest) :: b.frame.terms },
        b.outer, b.groups + 1⟩ = some re := htail
  unfold Pattern.Builder.finish at hfinish
  split at hfinish
  · next hdone =>
    have houter : b.outer = [] := hdone.1
    have hterms : b.allTerms = b.frame.terms.map Prod.snd := by
      simp [Pattern.Builder.allTerms, Pattern.Builder.frames, houter]
    have hbefore := (hread.plain b.frame (List.mem_cons_self ..)).1
    refine ⟨b.frame.terms.reverse.map Prod.snd,
      [.group (b.groups + 1) (.sequence [segmentRegex])], ?_, ?_, ?_⟩
    · rw [← Option.some.inj hfinish]
      simp [Pattern.Frame.regex, hbefore]
    · apply Regex.solid_sequence
      intro r hr
      apply hread.terms
      rw [hterms]
      simpa using hr
    · rw [List.map_reverse, Regex.size_sequence_reverse, ← hterms,
        hread.size]
  · cases hfinish

/-- A slash of the URI of an entity is in the path or right behind it. -/
theorem slash_in_path (hentity : '/' ∉ entity) {before after : Str}
    (huri : before ++ '/' :: after = path ++ '/' :: entity) :
    ∃ behind, path = before ++ behind
      ∧ (behind = [] ∨ behind.head? = some '/') := by
  rcases List.append_eq_append_iff.mp huri with
    ⟨more, hmore, hafter⟩ | ⟨more, hmore, hafter⟩
  · refine ⟨more, hmore, ?_⟩
    cases more with
    | nil => exact Or.inl rfl
    | cons c more =>
        rw [List.cons_append] at hafter
        rw [← (List.cons.inj hafter).1]
        exact Or.inr rfl
  · cases more with
    | nil =>
        rw [List.append_nil] at hmore
        exact ⟨[], by rw [hmore, List.append_nil], Or.inl rfl⟩
    | cons c more =>
        rw [List.cons_append] at hafter
        rw [(List.cons.inj hafter).2] at hentity
        exact absurd (by simp) hentity

/-- In front of a slash of the URI of an entity there is no piece without
marks that is as long as the path without its marks, unless the path has
none. -/
theorem no_solid_piece (hstart : path.head? = some '/')
    (hentity : '/' ∉ entity) {before piece after : Str}
    (huri : before ++ piece ++ '/' :: after = path ++ '/' :: entity)
    (hpiece : ∀ c ∈ piece, c ∉ Pattern.syntaxCharacters)
    (hlong : path.countP (· ∉ Pattern.syntaxCharacters) ≤ piece.length) :
    path = piece := by
  obtain ⟨behind, heq, hbehind⟩ := slash_in_path hentity huri
  have hall : piece.countP (· ∉ Pattern.syntaxCharacters)
      = piece.length := by
    rw [List.countP_eq_length]
    intro c hc
    exact decide_eq_true (hpiece c hc)
  rw [heq, List.countP_append, List.countP_append, hall] at hlong
  -- a slash before or behind the piece would be one character too many
  have hslash : ∀ s : Str, s.head? = some '/' →
      0 < s.countP (· ∉ Pattern.syntaxCharacters) := by
    intro s hs
    obtain ⟨t, ht⟩ := List.head?_eq_some_iff.mp hs
    rw [List.countP_pos_iff]
    exact ⟨'/', by rw [ht]; exact List.mem_cons_self .., by decide⟩
  have hnone : behind = [] := by
    rcases hbehind with hnil | hhead
    · exact hnil
    · have hpos := hslash behind hhead
      omega
  have hfront : before = [] := by
    cases before with
    | nil => rfl
    | cons c before =>
        rw [heq] at hstart
        have hpos := hslash (c :: before) hstart
        omega
  rw [heq, hnone, hfront, List.append_nil, List.nil_append]

/-- Under a marked path no entity is found. -/
theorem extractEntityUnder_of_mark (hstart : path.head? = some '/')
    (hmarked : MarkedPath path) (hentity : '/' ∉ entity) :
    (extractEntityUnder path (path ++ '/' :: entity)).getD [] = [] := by
  obtain ⟨hsolid, c, hc, hmark⟩ := hmarked
  unfold extractEntityUnder searchPattern
  cases hcompile : Pattern.compile (path ++ entitySuffix) with
  | none => rfl
  | some re =>
      obtain ⟨rs, tail, hregex, hrs, hsize⟩ :=
        compile_solid hsolid hcompile
      have hnone : re.search (path ++ '/' :: entity) = none := by
        unfold Pattern.Compiled.search
        apply Regex.search_eq_none
        intro done place hplace
        rw [hregex, Regex.run_sequence_append, List.flatMap_eq_nil_iff]
        intro mid hmid
        apply run_slash_of_not
        intro hslash
        obtain ⟨after, hafter⟩ := List.head?_eq_some_iff.mp hslash
        obtain ⟨piece, hpiece, hallowed, hlong⟩ := Regex.run_solid hrs hmid
        obtain ⟨before, hbefore⟩ := hplace
        have huri : before ++ piece ++ '/' :: after
            = path ++ '/' :: entity := by
          rw [← hbefore, List.append_assoc, ← hafter]
          exact congrArg (before ++ ·) hpiece.symm
        rw [hsize] at hlong
        have heq := no_solid_piece hstart hentity huri hallowed hlong
        rw [heq] at hc
        exact hallowed c hc hmark
      rw [Option.map_some, hnone]
      rfl

/-- Nor does the handler work under one. -/
theorem not_worksUnder_of_mark (hstart : path.head? = some '/')
    (hmarked : MarkedPath path) : ¬ WorksUnder path := by
  intro hworks
  have hroot : path ≠ "/".toList := by
    intro heq
    obtain ⟨-, c, hc, hmark⟩ := hmarked
    rw [heq] at hc
    rw [List.mem_singleton.mp hc] at hmark
    exact absurd hmark (by decide)
  have hentity := (hworks "e".toList "e".toList isSegment_e isSegment_e).1
  have hnone := extractEntityUnder_of_mark hstart hmarked isSegment_e.2
  unfold entityUri at hentity
  rw [if_neg hroot] at hentity
  rw [hentity] at hnone
  exact absurd hnone (by decide)

-- ================================================================= the handler

/-- What a handler extracts that works under its location. -/
theorem CrudRequestHandler.extract_of_worksUnder {J : Type}
    {h : CrudRequestHandler J} (hsearch : h.regexSearch = searchPattern)
    (hworks : WorksUnder h.baseUri) (hentity : IsSegment entity)
    (hid : IsSegment id) :
    h.extractEntity (entityUri h.baseUri entity) = entity
      ∧ h.extractId (entityUri h.baseUri entity) = []
      ∧ h.extractEntity (idUri h.baseUri entity id) = entity
      ∧ h.extractId (idUri h.baseUri entity id) = id := by
  obtain ⟨halone, hbefore, hbehind, hnone⟩ := hworks entity id hentity hid
  obtain ⟨hfirst, hsecond⟩ := extract_of_under hsearch
    (entityUri h.baseUri entity)
  obtain ⟨hfirst', hsecond'⟩ := extract_of_under hsearch
    (idUri h.baseUri entity id)
  exact ⟨hfirst _ halone, hsecond _ hnone, hfirst' _ hbefore,
    hsecond' _ hbehind⟩

-- ================================================================== locations

/-- The handler works under every path of literals and dots but the root;
it does not work under the root, under a path whose patterns are not well
formed, and under a marked one. -/
theorem crud_locations (hallowed : PathAllowed path) :
    (path ≠ "/".toList ∧ LiteralPath path → WorksUnder path)
      ∧ (path = "/".toList ∨ ¬ Compiles path ∨ MarkedPath path →
        ¬ WorksUnder path) := by
  constructor
  · intro hliteral
    exact worksUnder_of_literal hliteral.1 hliteral.2
  · intro hfails
    rcases hfails with hroot | hthrows | hmarked
    · rw [hroot]
      exact not_worksUnder_root
    · intro hworks
      exact hthrows (compiles_of_worksUnder hworks)
    · exact not_worksUnder_of_mark hallowed.2.2 hmarked

theorem crud_locations_dotted : WorksUnder "/api/v1.0".toList :=
  (crud_locations (by decide)).1
    ⟨by decide, List.all_iff_forall_prop.mp (by decide)⟩

/-- Under "/" the entity of "/Shoes" is not found, nor under "/a+b" that
of "/a+b/Shoes", and under "/a(" the search throws. -/
theorem crud_fails_under_root :
    PathAllowed "/".toList
      ∧ extractEntityUnder "/".toList "/Shoes".toList = some []
      ∧ ¬ WorksUnder "/".toList
      ∧ PathAllowed "/a+b".toList
      ∧ extractEntityUnder "/a+b".toList "/a+b/Shoes".toList = some []
      ∧ PathAllowed "/a(".toList
      ∧ extractEntityUnder "/a(".toList "/a(/Shoes".toList = none := by
  have hentity : IsSegment "Shoes".toList := by decide
  refine ⟨by decide, extractEntityUnder_root hentity, not_worksUnder_root,
    by decide, ?_, by decide, ?_⟩
  · decide +kernel
  · decide +kernel

end Creeper
