/-
Which files a static location can be made to open.

The path is the root and whatever the URI has after the location, put
together as strings. `segments_rootPath` says what this is in segments:
after the root when the remainder begins with a slash, and after the
root's PARENT, with the root's own name run on, when it does not.
Either way the rest is a walk from the root (`walk_rootPath`), and
`static_contained_iff` says which walks end at or below it: those that
come back down through the levels of the root they climbed out of.
-/
import Creeper.Lib.Path
import Creeper.Static

namespace Creeper

open Lib

/-- A canonical directory other than the root of the file system: the
names above it, and its own. -/
structure CanonicalRoot where
  above : List Str
  name : Str
  ordinary : ∀ seg ∈ above ++ [name],
    seg ≠ [] ∧ '/' ∉ seg ∧ seg ≠ ".".toList ∧ seg ≠ "..".toList

namespace CanonicalRoot

variable (root : CanonicalRoot)

/-- Its segments. -/
def segs : List Str := root.above ++ [root.name]

/-- Its path. -/
def path : Str := joinSegments '/' root.segs

/-- The path, once `.`, `..` and repeated slashes are resolved, is the
directory or lies below it. -/
def Contains (path : Str) : Prop :=
  root.segs <+: walk ".".toList "..".toList [] (segments '/' path)

instance (path : Str) : Decidable (root.Contains path) :=
  inferInstanceAs (Decidable (_ <+: _))

/-- What a remainder of the URI does to the root: its segments, where it
begins with a slash or is empty; else up to the parent, and down along
the root's name run on by the remainder. -/
def steps (rest : Str) : List Str :=
  if rest = [] ∨ rest.head? = some '/' then segments '/' rest
  else "..".toList :: segments '/' (root.name ++ rest)

/-- The remainder climbs out of the root by some levels in all and then
goes down, first of all through those levels of the root. -/
def ReturnsTo (rest : Str) : Prop :=
  root.segs.drop (root.segs.length
      - (detour ".".toList "..".toList (root.steps rest)).1)
    <+: (detour ".".toList "..".toList (root.steps rest)).2

instance (rest : Str) : Decidable (root.ReturnsTo rest) :=
  inferInstanceAs (Decidable (_ <+: _))

-- ============================================================ the root path

variable {root}

/-- The root path with a remainder, in segments. -/
theorem segments_rootPath (rest : Str) :
    segments '/' (root.path ++ rest)
      = root.above ++ segments '/' (root.name ++ rest) := by
  refine segments_join_append (fun seg hseg => ?_) rest
  obtain ⟨hne, hslash, -⟩ :=
    root.ordinary seg (List.mem_append_left _ hseg)
  exact ⟨hne, hslash⟩

/-- The root's name, ended by the remainder, is a segment. -/
theorem segments_name {rest : Str}
    (h : rest = [] ∨ rest.head? = some '/') :
    segments '/' (root.name ++ rest) = root.name :: segments '/' rest := by
  obtain ⟨hne, hslash, -⟩ :=
    root.ordinary root.name (List.mem_append_right _ (List.mem_singleton_self _))
  rw [← segmentsFrom_eq hslash]
  cases rest with
  | nil =>
      rw [segmentsFrom, if_neg hne]
      rfl
  | cons c rest =>
      obtain rfl : c = '/' := by simpa using h
      rw [segmentsFrom_sep hne, segments_sep]

/-- The names of the root lead to it. -/
theorem walk_segs {segs : List Str} (h : ∀ seg ∈ segs, seg ∈ root.segs) :
    walk ".".toList "..".toList [] segs = segs := by
  rw [walk_names, List.nil_append]
  exact fun seg hseg => (root.ordinary seg (h seg hseg)).2.2

/-- The root path with a remainder leads where the remainder's steps
lead from the root. -/
theorem walk_rootPath (rest : Str) :
    walk ".".toList "..".toList [] (segments '/' (root.path ++ rest))
      = walk ".".toList "..".toList root.segs (root.steps rest) := by
  have habove : walk ".".toList "..".toList [] root.above = root.above :=
    walk_segs fun seg hseg => List.mem_append_left _ hseg
  rw [segments_rootPath]
  unfold steps
  split
  · next hrest =>
    have hsegs : walk ".".toList "..".toList [] root.segs = root.segs :=
      walk_segs fun seg hseg => hseg
    rw [segments_name hrest, ← List.singleton_append, ← List.append_assoc,
      walk_append]
    exact congrArg (walk _ _ · _) hsegs
  · next hrest =>
    -- up and down again along the longer name
    have hparent : walk ".".toList "..".toList root.segs ["..".toList]
        = root.above := by
      show root.segs.dropLast = root.above
      exact List.dropLast_concat
    rw [walk_append, habove, ← List.singleton_append, walk_append, hparent]

end CanonicalRoot

-- ============================================================= the handler

namespace StaticRequestHandler

variable {h : StaticRequestHandler} {req : Request}

/-- A routed URI is the location and a remainder, and every call is
about the root with that remainder. -/
theorem handleRequest_allCalls (hstarts : h.baseUri <+: req.uri)
    (P : Str → Prop) :
    (h.handleRequest req).AllCalls (fun c => P c.path)
      ↔ P (h.rootPath ++ req.uri.drop h.baseUri.length) := by
  unfold handleRequest
  rw [generateFilePath_of_starts hstarts]
  refine ⟨fun hall => hall.1, fun hP => ⟨hP, fun there => ?_⟩⟩
  rcases there with _ | _ | _
  · trivial
  · trivial
  · refine ⟨hP, fun regular => ?_⟩
    rcases regular with _ | _ | _
    · trivial
    · trivial
    · exact ⟨hP, fun content => trivial⟩

/-- Static file containment, exactly. For every location and every
canonical root, and every URI that is routed to the location: every path
the handler asks about or opens is the root or lies below it if and only
if what the URI has after the location returns to the root. -/
theorem static_contained_iff (root : CanonicalRoot) (location : Str)
    (req : Request) (hstarts : location <+: req.uri) :
    (handleRequest ⟨location, root.path⟩ req).AllCalls
        (fun c => root.Contains c.path)
      ↔ root.ReturnsTo (req.uri.drop location.length) := by
  rw [handleRequest_allCalls hstarts]
  unfold CanonicalRoot.Contains CanonicalRoot.ReturnsTo
  rw [CanonicalRoot.walk_rootPath, prefix_walk_iff]

/-- `/data` -/
def dataRoot : CanonicalRoot :=
  { above := [], name := "data".toList, ordinary := by decide }

theorem static_contained_file :
    (handleRequest ⟨"/static".toList, dataRoot.path⟩
      { uri := "/static/a/../b.txt".toList }).AllCalls
        (fun c => dataRoot.Contains c.path) :=
  (static_contained_iff dataRoot "/static".toList _
    ⟨"/a/../b.txt".toList, rfl⟩).mpr (by decide)

theorem static_escapes :
    ¬ (handleRequest ⟨"/static".toList, dataRoot.path⟩
      { uri := "/static/../etc/passwd".toList }).AllCalls
        (fun c => dataRoot.Contains c.path) := by
  intro hall
  exact absurd hall.1 (by decide)

end StaticRequestHandler

end Creeper
