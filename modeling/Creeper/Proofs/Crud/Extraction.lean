/-
Where in a URI the entity and the id come from.

Each of the two is cut out by a search of its own, and a search takes
the first place it can. `search_front_iff` is what that comes to for any
pattern: the place is the front of the URI unless the front does not
match and some later place does. `names_front_iff` puts the two searches
together, for the bases that stand for themselves.
-/
import Creeper.Proofs.Crud.Outcome

namespace Creeper

open Lib

-- ================================================================ vocabulary

/-- A segment of a path: something, and no slash in it. -/
def IsSegment (segment : Str) : Prop := segment ≠ [] ∧ '/' ∉ segment

instance (segment : Str) : Decidable (IsSegment segment) :=
  inferInstanceAs (Decidable (_ ∧ _))

/-- The text is the base, a slash and the segment, followed by a slash or
the end. -/
def Names (base segment text : Str) : Prop :=
  ∃ rest, text = base ++ '/' :: (segment ++ rest)
    ∧ (rest = [] ∨ rest.head? = some '/')

/-- The text begins with the base and an entity. -/
def NamesEntity (base text : Str) : Prop :=
  ∃ entity, IsSegment entity ∧ Names base entity text

/-- The text begins with the base, an entity and an id. -/
def NamesId (base text : Str) : Prop :=
  ∃ entity id, IsSegment entity ∧ IsSegment id
    ∧ Names (base ++ '/' :: entity) id text

-- =============================================================== the search

section

variable {f : Str → Option Str} {uri : Str}

/-- A search stops at the front where the front matches. -/
theorem search_of_front {v : Str} (h : f uri = some v) :
    uri.tails.findSome? f = some v := by
  cases uri with
  | nil => simp [h]
  | cons c uri => simp [h]

/-- A search finds something where some place matches. -/
theorem search_isSome {s : Str} (hs : s <:+ uri) (h : (f s).isSome) :
    (uri.tails.findSome? f).isSome :=
  List.findSome?_isSome_iff.mpr ⟨s, (List.mem_tails ..).mpr hs, h⟩

/-- What a search finds is what some place matches. -/
theorem exists_of_search {v : Str} (h : uri.tails.findSome? f = some v) :
    ∃ s, s <:+ uri ∧ f s = some v := by
  obtain ⟨s, hmem, hs⟩ := List.exists_of_findSome?_eq_some h
  exact ⟨s, (List.mem_tails ..).mp hmem, hs⟩

/-- What a search returns, if it is anything, was found. -/
theorem search_getD (h : (uri.tails.findSome? f).getD [] ≠ []) :
    uri.tails.findSome? f = some ((uri.tails.findSome? f).getD []) := by
  cases hfound : uri.tails.findSome? f with
  | none => rw [hfound] at h; exact absurd rfl h
  | some v => rfl

/-- A search for something nonempty is one at the front exactly when a
place that matches is only there if the front does. -/
theorem search_front_iff (uri : Str) (hne : ∀ s v, f s = some v → v ≠ []) :
    ((uri.tails.findSome? f).getD [] ≠ [] →
        f uri = some ((uri.tails.findSome? f).getD []))
      ↔ ∀ s, s <:+ uri → (f s).isSome → (f uri).isSome := by
  constructor
  · intro hfront s hs hsome
    obtain ⟨v, hv⟩ := Option.isSome_iff_exists.mp (search_isSome hs hsome)
    obtain ⟨s', -, hs'⟩ := exists_of_search hv
    rw [hv] at hfront
    rw [hfront (hne s' v hs')]
    rfl
  · intro hfront hx
    obtain ⟨s, hs, hfs⟩ := exists_of_search (search_getD hx)
    obtain ⟨v, hv⟩ := Option.isSome_iff_exists.mp
      (hfront s hs (by rw [hfs]; rfl))
    rw [search_of_front hv]
    exact hv

end

-- ============================================================= the patterns

/-- A segment is cut off where it ends. -/
theorem cut_segment {segment rest : Str} (hslash : '/' ∉ segment)
    (hrest : rest = [] ∨ rest.head? = some '/') :
    (segment ++ rest).takeWhile (· ≠ '/') = segment
      ∧ (segment ++ rest).dropWhile (· ≠ '/') = rest := by
  have hall : ∀ c ∈ segment, decide (c ≠ '/') = true := by
    intro c hc
    rw [decide_eq_true_eq]
    intro heq
    subst heq
    exact hslash hc
  rw [List.takeWhile_append_of_pos hall, List.dropWhile_append_of_pos hall]
  cases rest with
  | nil => exact ⟨List.append_nil _, rfl⟩
  | cons c rest =>
      obtain rfl : c = '/' := by simpa using hrest
      simp

/-- A segment captured at the front. -/
theorem matchSegment_eq_some_iff {s segment rest : Str} :
    matchSegment s = some (segment, rest)
      ↔ s = '/' :: (segment ++ rest) ∧ IsSegment segment
        ∧ (rest = [] ∨ rest.head? = some '/') := by
  constructor
  · intro hmatch
    unfold matchSegment at hmatch
    split at hmatch
    · next s =>
      dsimp only at hmatch
      split at hmatch
      · cases hmatch
      · next hne =>
        obtain ⟨rfl, rfl⟩ := Prod.mk.inj (Option.some.inj hmatch)
        refine ⟨by rw [List.takeWhile_append_dropWhile], ⟨hne, ?_⟩, ?_⟩
        · intro hmem
          simpa using List.mem_takeWhile_imp hmem
        · cases hrest : s.dropWhile (· ≠ '/') with
          | nil => exact Or.inl rfl
          | cons c rest =>
              have hstop := List.head?_dropWhile_not (· ≠ '/') s
              rw [hrest] at hstop
              exact Or.inr (by simpa using hstop)
    · cases hmatch
  · intro hex
    obtain ⟨rfl, ⟨hne, hslash⟩, hrest⟩ := hex
    obtain ⟨htake, hdrop⟩ := cut_segment hslash hrest
    rw [matchSegment, htake, hdrop]
    exact if_neg hne

/-- An entity captured at the front. -/
theorem matchEntity_eq_some_iff {base s entity : Str} :
    matchEntity base s = some entity
      ↔ IsSegment entity ∧ Names base entity s := by
  unfold matchEntity Names
  constructor
  · intro hmatch
    split at hmatch
    · next hbase =>
      obtain ⟨⟨_, rest⟩, hseg, rfl⟩ := Option.map_eq_some_iff.mp hmatch
      obtain ⟨hs, hsegment, hrest⟩ := matchSegment_eq_some_iff.mp hseg
      refine ⟨hsegment, rest, ?_, hrest⟩
      rw [← hs]
      exact List.prefix_iff_eq_append.mp hbase |>.symm
    · cases hmatch
  · intro hex
    obtain ⟨hsegment, rest, rfl, hrest⟩ := hex
    have hseg := matchSegment_eq_some_iff.mpr ⟨rfl, hsegment, hrest⟩
    rw [if_pos (List.prefix_append ..), List.drop_left, hseg]
    rfl

/-- An id captured at the front: of an entity in front of it. -/
theorem matchId_eq_some_iff {base s id : Str} :
    matchId base s = some id
      ↔ IsSegment id ∧ ∃ entity, IsSegment entity
        ∧ Names (base ++ '/' :: entity) id s := by
  unfold matchId Names
  constructor
  · intro hmatch
    split at hmatch
    · next hbase =>
      split at hmatch
      · cases hmatch
      · next entity rest hseg =>
        obtain ⟨⟨_, rest'⟩, hid, rfl⟩ := Option.map_eq_some_iff.mp hmatch
        obtain ⟨hs, hentity, -⟩ := matchSegment_eq_some_iff.mp hseg
        obtain ⟨rfl, hsegment, hrest'⟩ := matchSegment_eq_some_iff.mp hid
        refine ⟨hsegment, entity, hentity, rest', ?_, hrest'⟩
        rw [List.append_assoc, List.cons_append, ← hs]
        exact List.prefix_iff_eq_append.mp hbase |>.symm
    · cases hmatch
  · intro hex
    obtain ⟨hsegment, entity, hentity, rest, rfl, hrest⟩ := hex
    have hid := matchSegment_eq_some_iff.mpr ⟨rfl, hsegment, hrest⟩
    have hseg := matchSegment_eq_some_iff.mpr
      ⟨rfl, hentity, Or.inr (rfl : ('/' :: (id ++ rest)).head? = some '/')⟩
    rw [List.append_assoc, List.cons_append,
      if_pos (List.prefix_append ..), List.drop_left, hseg]
    show (matchSegment ('/' :: (id ++ rest))).map Prod.fst = some id
    rw [hid]
    rfl

theorem matchEntity_isSome_iff {base s : Str} :
    (matchEntity base s).isSome ↔ NamesEntity base s := by
  simp only [Option.isSome_iff_exists, matchEntity_eq_some_iff]
  rfl

theorem matchId_isSome_iff {base s : Str} :
    (matchId base s).isSome ↔ NamesId base s := by
  simp only [Option.isSome_iff_exists, matchId_eq_some_iff]
  constructor
  · intro hex
    obtain ⟨id, hid, entity, hentity, hnames⟩ := hex
    exact ⟨entity, id, hentity, hid, hnames⟩
  · intro hex
    obtain ⟨entity, id, hentity, hid, hnames⟩ := hex
    exact ⟨id, hid, entity, hentity, hnames⟩

/-- A text with an id behind an entity has the entity. -/
theorem Names.of_id {base entity id text : Str}
    (h : Names (base ++ '/' :: entity) id text) :
    Names base entity text := by
  obtain ⟨rest, rfl, -⟩ := h
  exact ⟨'/' :: (id ++ rest), by simp, Or.inr rfl⟩

-- ============================================================= the handler

namespace CrudRequestHandler

variable {J : Type} {h : CrudRequestHandler J} {uri : Str}

variable (h) in
/-- What the handler takes for the entity and the id of the URI is what
the URI names at its front. -/
def NamesFront (uri : Str) : Prop :=
  (h.extractEntity uri ≠ [] →
      Names h.baseUri (h.extractEntity uri) uri)
    ∧ (h.extractId uri ≠ [] →
      Names (h.baseUri ++ '/' :: h.extractEntity uri) (h.extractId uri) uri)

/-- The searches of a base that stands for itself. -/
theorem extract_of_plain (hplain : isPlainBase h.baseUri) (uri : Str) :
    h.extractEntity uri
        = (uri.tails.findSome? (matchEntity h.baseUri)).getD []
      ∧ h.extractId uri
        = (uri.tails.findSome? (matchId h.baseUri)).getD [] := by
  unfold extractEntity extractId
  rw [if_pos hplain, if_pos hplain]
  exact ⟨rfl, rfl⟩

/-- The entity the URI names at its front is the one that is
extracted. -/
theorem extractEntity_of_front (hplain : isPlainBase h.baseUri)
    {entity : Str} (hentity : IsSegment entity)
    (hnames : Names h.baseUri entity uri) : h.extractEntity uri = entity := by
  have hmatch := matchEntity_eq_some_iff.mpr ⟨hentity, hnames⟩
  rw [(extract_of_plain hplain uri).1, search_of_front hmatch]
  rfl

/-- An entity that is extracted is a segment, and somewhere in the
URI. -/
theorem extractEntity_found (hplain : isPlainBase h.baseUri)
    (hne : h.extractEntity uri ≠ []) :
    IsSegment (h.extractEntity uri) ∧ ∃ s, s <:+ uri
      ∧ Names h.baseUri (h.extractEntity uri) s := by
  rw [(extract_of_plain hplain uri).1] at hne ⊢
  obtain ⟨s, hs, hmatch⟩ := exists_of_search (search_getD hne)
  obtain ⟨hsegment, hnames⟩ := matchEntity_eq_some_iff.mp hmatch
  exact ⟨hsegment, s, hs, hnames⟩

/-- An id that is extracted is a segment, and behind an entity somewhere
in the URI. -/
theorem extractId_found (hplain : isPlainBase h.baseUri)
    (hne : h.extractId uri ≠ []) :
    IsSegment (h.extractId uri) ∧ ∃ s entity, s <:+ uri
      ∧ IsSegment entity
      ∧ Names (h.baseUri ++ '/' :: entity) (h.extractId uri) s := by
  rw [(extract_of_plain hplain uri).2] at hne ⊢
  obtain ⟨s, hs, hmatch⟩ := exists_of_search (search_getD hne)
  obtain ⟨hsegment, entity, hentity, hnames⟩ := matchId_eq_some_iff.mp hmatch
  exact ⟨hsegment, s, entity, hs, hentity, hnames⟩

/-- The entity comes from the front exactly when an entity further on is
only there if there is one at the front. -/
theorem entity_front_iff (hplain : isPlainBase h.baseUri) (uri : Str) :
    (h.extractEntity uri ≠ [] → Names h.baseUri (h.extractEntity uri) uri)
      ↔ ∀ s, s <:+ uri → NamesEntity h.baseUri s →
        NamesEntity h.baseUri uri := by
  have hfront := search_front_iff (f := matchEntity h.baseUri) uri
    fun s v hv => (matchEntity_eq_some_iff.mp hv).1.1
  simp only [matchEntity_isSome_iff, ← (extract_of_plain hplain uri).1,
    matchEntity_eq_some_iff] at hfront
  rw [← hfront]
  constructor
  · intro hnames hne
    exact ⟨(extractEntity_found hplain hne).1, hnames hne⟩
  · intro hnames hne
    exact (hnames hne).2

/-- The id comes from behind the entity at the front exactly when an id
further on is only there if there is one at the front. -/
theorem id_front_iff (hplain : isPlainBase h.baseUri) (uri : Str) :
    (h.extractId uri ≠ [] →
        Names (h.baseUri ++ '/' :: h.extractEntity uri) (h.extractId uri)
          uri)
      ↔ ∀ s, s <:+ uri → NamesId h.baseUri s → NamesId h.baseUri uri := by
  have hfront := search_front_iff (f := matchId h.baseUri) uri
    fun s v hv => (matchId_eq_some_iff.mp hv).1.1
  simp only [matchId_isSome_iff, ← (extract_of_plain hplain uri).2,
    matchId_eq_some_iff] at hfront
  rw [← hfront]
  constructor
  · intro hnames hne
    obtain ⟨hid, s, entity, hs, hentity, hat⟩ := extractId_found hplain hne
    -- where there is an id there is an entity in front of it
    have hsome : h.extractEntity uri ≠ [] := by
      rw [(extract_of_plain hplain uri).1]
      obtain ⟨v, hv⟩ := Option.isSome_iff_exists.mp (search_isSome hs
        (matchEntity_isSome_iff.mpr ⟨entity, hentity, hat.of_id⟩))
      obtain ⟨s', -, hs'⟩ := exists_of_search hv
      rw [hv]
      exact (matchEntity_eq_some_iff.mp hs').1.1
    exact ⟨hid, h.extractEntity uri, (extractEntity_found hplain hsome).1,
      hnames hne⟩
  · intro hnames hne
    obtain ⟨-, entity, hentity, hat⟩ := hnames hne
    rw [extractEntity_of_front hplain hentity hat.of_id]
    exact hat

/-- Entity and id come from the front, exactly. For every base that
stands for itself and every URI: what is extracted is what the URI names
at its front if and only if a place of the URI names an entity, or an
entity and an id, only where the front does. -/
theorem names_front_iff (h : CrudRequestHandler J)
    (hplain : isPlainBase h.baseUri) (uri : Str) :
    h.NamesFront uri
      ↔ (∀ s, s <:+ uri → NamesEntity h.baseUri s →
          NamesEntity h.baseUri uri)
        ∧ ∀ s, s <:+ uri → NamesId h.baseUri s → NamesId h.baseUri uri :=
  and_congr (entity_front_iff hplain uri) (id_front_iff hplain uri)

theorem names_front_entity : api.NamesFront "/api/Books/3".toList := by
  refine (names_front_iff api (by decide) "/api/Books/3".toList).mpr
    ⟨fun s _ _ => ?_, fun s _ _ => ?_⟩
  · exact ⟨"Books".toList, by decide, "/3".toList, by decide, Or.inr rfl⟩
  · exact ⟨"Books".toList, "3".toList, by decide, by decide, [], by decide,
      Or.inl rfl⟩

theorem names_elsewhere :
    api.baseUri <+: "/api/e//api/f/3".toList
      ∧ ¬ api.NamesFront "/api/e//api/f/3".toList
      ∧ ∃ k, api.handleRequest
          { method := "DELETE".toList, uri := "/api/e//api/f/3".toList }
        = .call (.remove "e".toList ⟨3, by decide⟩) k := by
  have hentity : api.extractEntity "/api/e//api/f/3".toList = "e".toList := by
    decide
  have hid : api.extractId "/api/e//api/f/3".toList = "3".toList := by
    decide
  refine ⟨by decide, ?_, ?_⟩
  · intro hex
    obtain ⟨-, hnames⟩ := hex
    rw [hentity, hid] at hnames
    obtain ⟨rest, huri, -⟩ := hnames (by decide)
    have hstarts : "/api/e/3".toList <+: "/api/e//api/f/3".toList :=
      ⟨rest, huri.symm⟩
    exact absurd hstarts (by decide)
  · exact ⟨_, rfl⟩

end CrudRequestHandler

end Creeper
