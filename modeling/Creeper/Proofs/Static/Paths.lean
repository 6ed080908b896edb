/-
Which file a static location maps a URI to.

What follows the location in a routed URI is put behind the root as it
is. A location other than `/` leaves the slash that comes after it in
place; the location `/` is that slash itself, and takes it away.
`static_joins_iff` says that the file is then lost unless the root
brings a slash of its own.
-/
import Creeper.Lib.Path
import Creeper.Proofs.Dispatch.Routing
import Creeper.Static

namespace Creeper

open Lib

/-- The URI of a location and a relative path, joined by one slash. -/
def joinUri (location relative : Str) : Str :=
  if location = "/".toList then '/' :: relative
  else location ++ '/' :: relative

namespace StaticRequestHandler

variable {location root relative : Str}

/-- The file of the URI made of the location and the relative path is
that path under the root, up to repeated slashes. -/
def Joins (location root relative : Str) : Prop :=
  ∃ path, generateFilePath ⟨location, root⟩ (joinUri location relative)
      = some path
    ∧ collapse '/' path = collapse '/' (root ++ '/' :: relative)

/-- What comes after the location goes behind the root. -/
theorem generateFilePath_append (location root rest : Str) :
    generateFilePath ⟨location, root⟩ (location ++ rest)
      = some (root ++ rest) := by
  have hpath := generateFilePath_of_starts (h := ⟨location, root⟩)
    (List.prefix_append location rest)
  rwa [List.drop_left] at hpath

/-- Behind a root with a slash of its own the path needs no other. -/
theorem collapse_root_iff (root : Str) (hne : relative ≠ [])
    (hrel : relative.head? ≠ some '/') :
    collapse '/' (root ++ relative) = collapse '/' (root ++ '/' :: relative)
      ↔ root.getLast? = some '/' := by
  constructor
  · intro heq
    by_contra hlast
    -- the second path has one character more
    have hslash : collapse '/' ('/' :: relative)
        = '/' :: collapse '/' relative := by
      cases relative with
      | nil => exact absurd rfl hne
      | cons b rest =>
          rw [collapse, if_neg]
          intro hex
          obtain ⟨-, rfl⟩ := hex
          exact hrel rfl
    rw [collapse_append (Or.inr hrel), collapse_append (Or.inl hlast),
      hslash] at heq
    have hlength := congrArg List.length (List.append_cancel_left heq)
    rw [List.length_cons] at hlength
    omega
  · intro hlast
    obtain ⟨init, rfl⟩ := List.getLast?_eq_some_iff.mp hlast
    rw [List.append_assoc, List.append_assoc, List.singleton_append,
      List.singleton_append]
    exact (collapse_sep_sep init relative).symm

/-- A location the dispatcher matches is at the front of the URI, so the
path can be computed. -/
theorem generateFilePath_isSome {A H : Type} (routes : Routes A H)
    (root uri : Str) :
    (generateFilePath ⟨longestPrefixMatch routes uri, root⟩ uri).isSome := by
  have hstarts : longestPrefixMatch routes uri <+: uri := by
    rw [longestPrefixMatch_eq]
    exact longestPrefix_isPrefix routes.keys uri
  rw [generateFilePath_of_starts hstarts]
  rfl

/-- Static paths join, exactly. For every location, every root and every
nonempty relative path: the URI made of location and path is mapped to
the path under the root if and only if the location is not `/` or the
root ends with a slash; and whatever routes there are, a URI they match
to the location is long enough to be cut behind it. -/
theorem static_joins_iff (location root relative : Str)
    (hne : relative ≠ []) (hrel : relative.head? ≠ some '/') :
    (Joins location root relative
        ↔ location ≠ "/".toList ∨ root.getLast? = some '/')
      ∧ ∀ {A H : Type} (routes : Routes A H) (uri : Str),
          longestPrefixMatch routes uri = location →
          (generateFilePath ⟨location, root⟩ uri).isSome := by
  refine ⟨?_, fun routes uri hmatch => ?_⟩
  · unfold Joins joinUri
    by_cases hlocation : location = "/".toList
    · subst hlocation
      have hpath := generateFilePath_append "/".toList root relative
      have hiff := collapse_root_iff root hne hrel
      rw [if_pos rfl]
      constructor
      · intro hex
        obtain ⟨path, hsome, heq⟩ := hex
        obtain rfl := Option.some.inj (hpath.symm.trans hsome)
        exact Or.inr (hiff.mp heq)
      · intro hcond
        have hlast := hcond.resolve_left fun h => h rfl
        exact ⟨root ++ relative, hpath, hiff.mpr hlast⟩
    · -- the slash between the two stays in front of the path
      rw [if_neg hlocation]
      exact iff_of_true
        ⟨_, generateFilePath_append location root ('/' :: relative), rfl⟩
        (Or.inl hlocation)
  · rw [← hmatch]
    exact generateFilePath_isSome routes root uri

theorem static_joins_file :
    Joins "/static".toList "/data".toList "a/b.txt".toList :=
  (static_joins_iff "/static".toList "/data".toList "a/b.txt".toList
    (by decide) (by decide)).1.mpr (Or.inl (by decide))

theorem static_joins_not_at_root :
    PathAllowed "/".toList
      ∧ ¬ Joins "/".toList "/data".toList "a.txt".toList := by
  refine ⟨by decide, ?_⟩
  intro hex
  obtain ⟨path, hsome, heq⟩ := hex
  have hpath : generateFilePath ⟨"/".toList, "/data".toList⟩
      (joinUri "/".toList "a.txt".toList) = some "/dataa.txt".toList := by
    decide
  obtain rfl := Option.some.inj (hpath.symm.trans hsome)
  exact absurd heq (by decide)

end StaticRequestHandler

end Creeper
