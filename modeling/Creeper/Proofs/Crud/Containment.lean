/-
Which files an entity request can be made to touch.

The storage joins its root, the entity and the id as paths. That the
first two lead to `data_path/<entity>` is `resolve_one_down_iff`: it
takes an entity that is one ordinary path component. The file inside
needs no more, an id being a numeral, and no less (`path_contained_iff`).
So every operation of the storage stays where it should, or none does
(`perform_contained_iff`), and it is the entity alone that decides.
-/
import Creeper.Proofs.Crud.Outcome

namespace Creeper

open Lib

namespace RealEntityStorage

variable {s : RealEntityStorage} {fs : FileSystem} {resource : Str}

/-- A call about a directory is about `data_path/<entity>`, and a call
about a file is about `data_path/<entity>/<integer>`. -/
def Contained (s : RealEntityStorage) (fs : FileSystem) (entity : Str) :
    DiskCall → Prop
  | .createDirectories path => fs.resolve path = fs.resolve s.root ++ [entity]
  | .directoryIterator path => fs.resolve path = fs.resolve s.root ++ [entity]
  | .pathExists path => fs.resolve path = fs.resolve s.root ++ [entity]
  | .isDirectory path => fs.resolve path = fs.resolve s.root ++ [entity]
  | .openTruncate path =>
      ∃ i, fs.resolve path = fs.resolve s.root ++ [entity, decimalInt i]
  | .write path _ =>
      ∃ i, fs.resolve path = fs.resolve s.root ++ [entity, decimalInt i]
  | .openRead path =>
      ∃ i, fs.resolve path = fs.resolve s.root ++ [entity, decimalInt i]
  | .read path =>
      ∃ i, fs.resolve path = fs.resolve s.root ++ [entity, decimalInt i]
  | .remove path =>
      ∃ i, fs.resolve path = fs.resolve s.root ++ [entity, decimalInt i]

variable (fs) in
/-- The directory of an ordinary entity. -/
theorem resolve_makeEntityDir (hroot : nul ∉ s.root)
    (hentity : OrdinaryName resource) :
    fs.resolve (s.makeEntityDir resource)
      = fs.resolve s.root ++ [resource] :=
  FileSystem.resolve_ordinary hroot hentity

/-- A file in the directory of a resource without NUL. -/
theorem resolve_makeEntityPath_dir (hroot : nul ∉ s.root)
    (hresource : nul ∉ resource) (id : CInt) :
    fs.resolve (s.makeEntityPath resource id)
      = fs.resolve (s.makeEntityDir resource) ++ [decimalInt id.val] :=
  FileSystem.resolve_ordinary (nul_not_mem_pathAppend hroot hresource)
    (ordinaryName_decimalInt id.val)

variable (fs) in
/-- A file of an ordinary entity. -/
theorem resolve_makeEntityPath (hroot : nul ∉ s.root)
    (hentity : OrdinaryName resource) (id : CInt) :
    fs.resolve (s.makeEntityPath resource id)
      = fs.resolve s.root ++ [resource, decimalInt id.val] := by
  rw [resolve_makeEntityPath_dir hroot hentity.not_nul,
    resolve_makeEntityDir fs hroot hentity, List.append_assoc]
  rfl

/-- The file of a resource lies where it should exactly when the resource
is an ordinary name. -/
theorem path_contained_iff (id : CInt) :
    (∃ i, fs.resolve (s.makeEntityPath resource id)
        = fs.resolve s.root ++ [resource, decimalInt i])
      ↔ nul ∉ s.root ∧ OrdinaryName resource := by
  constructor
  · intro h
    obtain ⟨i, hi⟩ := h
    have hnumeral := ordinaryName_decimalInt id.val
    by_cases hnul : nul ∈ pathAppend s.root resource
    · -- the system never gets to the id
      have hdir : fs.resolve (pathAppend s.root resource)
          = fs.resolve s.root ++ [resource, decimalInt i] := by
        rw [← hi]
        exact (FileSystem.resolve_pathAppend_nul hnul hnumeral.head?_ne).symm
      obtain ⟨hne, hslash, hresource⟩ := mem_segs
        (FileSystem.mem_segs_of_resolve hdir (List.mem_cons_self ..))
      have hroot : nul ∈ s.root := by
        by_contra hroot
        exact nul_not_mem_pathAppend hroot hresource hnul
      have hhead : resource.head? ≠ some '/' := fun hh =>
        hslash (List.mem_of_head? hh)
      rw [FileSystem.resolve_pathAppend_nul hroot hhead] at hdir
      exact absurd (List.self_eq_append_right.mp hdir) (by simp)
    · have hsplit : fs.resolve (s.makeEntityPath resource id)
          = fs.resolve (pathAppend s.root resource) ++ [decimalInt id.val] :=
        FileSystem.resolve_ordinary hnul hnumeral
      rw [hsplit] at hi
      have happend : fs.resolve s.root ++ [resource, decimalInt i]
          = (fs.resolve s.root ++ [resource]) ++ [decimalInt i] := by
        rw [List.append_assoc]
        rfl
      rw [happend] at hi
      exact FileSystem.resolve_one_down_iff.mp
        (List.append_singleton_inj.mp hi).1
  · intro h
    exact ⟨id.val, resolve_makeEntityPath fs h.1 h.2 id⟩

variable (fs) in
/-- The directory of a resource lies where it should exactly when the
resource is an ordinary name. -/
theorem dir_contained_iff :
    fs.resolve (s.makeEntityDir resource) = fs.resolve s.root ++ [resource]
      ↔ nul ∉ s.root ∧ OrdinaryName resource :=
  FileSystem.resolve_one_down_iff

-- ========================================================== the operations

/-- An operation on an ordinary entity stays where it should. -/
theorem perform_contained {c : StoreCall} (hroot : nul ∉ s.root)
    (hentity : OrdinaryName c.resource) :
    (s.perform c).AllCalls (s.Contained fs c.resource) := by
  have hdir := (dir_contained_iff fs).mpr ⟨hroot, hentity⟩
  have hpath : ∀ id, ∃ i, fs.resolve (s.makeEntityPath c.resource id)
      = fs.resolve s.root ++ [c.resource, decimalInt i] :=
    fun id => (path_contained_iff id).mpr ⟨hroot, hentity⟩
  cases c with
  | create resource data =>
      refine ⟨hdir, fun made => ?_⟩
      cases made with
      | none => trivial
      | some _ =>
          refine ⟨hdir, fun entries => ?_⟩
          cases entries with
          | none => trivial
          | some entries =>
              simp only
              split
              · trivial
              · refine ⟨hpath _, fun opened => ?_⟩
                cases opened with
                | false => trivial
                | true => exact ⟨hpath _, fun _ => trivial⟩
  | retrieve resource id =>
      refine ⟨hpath id, fun opened => ?_⟩
      cases opened with
      | false => trivial
      | true => exact ⟨hpath id, fun _ => trivial⟩
  | update resource id data =>
      refine ⟨hdir, fun made => ?_⟩
      cases made with
      | none => trivial
      | some _ =>
          refine ⟨hpath id, fun opened => ?_⟩
          cases opened with
          | false => trivial
          | true => exact ⟨hpath id, fun _ => trivial⟩
  | remove resource id => exact ⟨hpath id, fun _ => trivial⟩
  | list resource =>
      refine ⟨hdir, fun there => ?_⟩
      match there with
      | none => trivial
      | some false => trivial
      | some true =>
          refine ⟨hdir, fun isDir => ?_⟩
          match isDir with
          | none => trivial
          | some false => trivial
          | some true => exact ⟨hdir, fun _ => trivial⟩

/-- Every operation stays where it should, or none does, and the resource
decides. -/
theorem perform_contained_iff (c : StoreCall) :
    (s.perform c).AllCalls (s.Contained fs c.resource)
      ↔ nul ∉ s.root ∧ OrdinaryName c.resource := by
  constructor
  · intro hall
    cases c with
    | create resource data => exact (dir_contained_iff fs).mp hall.1
    | retrieve resource id => exact (path_contained_iff id).mp hall.1
    | update resource id data => exact (dir_contained_iff fs).mp hall.1
    | remove resource id => exact (path_contained_iff id).mp hall.1
    | list resource => exact (dir_contained_iff fs).mp hall.1
  · intro h
    exact perform_contained h.1 h.2

end RealEntityStorage

-- ============================================================= the handler

namespace CrudRequestHandler

variable {J : Type}

/-- CRUD containment, exactly. For every data path, base URI and sequence
of requests, whatever the disk answers: every call made on the file
system is about the directory `data_path/<entity>` of its request's
entity or a file `data_path/<entity>/<integer>`, if and only if every
request that reaches the storage has an entity that is one ordinary path
component (and the data path has no NUL). -/
theorem crud_contained_iff (h : CrudRequestHandler J)
    (s : RealEntityStorage) (fs : FileSystem) (reqs : List Request) :
    (∀ req ∈ reqs, (h.onDisk s req).AllCalls
        (s.Contained fs (h.extractEntity req.uri)))
      ↔ ∀ req ∈ reqs, h.ReachesStorage req →
          nul ∉ s.root ∧ OrdinaryName (h.extractEntity req.uri) := by
  constructor
  · intro hall req hreq hreach
    have hcalls := hall req hreq
    have hresource := h.handleRequest_resource req
    rcases h.handleRequest_cases req with ⟨hno, -⟩ | ⟨-, c, k, hcall⟩
    · exact absurd hreach hno
    · unfold onDisk at hcalls
      rw [hcall] at hcalls hresource
      have hfirst := Prog.AllCalls.of_through hcalls
      rw [← hresource.1] at hfirst ⊢
      exact (RealEntityStorage.perform_contained_iff c).mp hfirst
  · intro hok req hreq
    have hresource := h.handleRequest_resource req
    rcases h.handleRequest_cases req with ⟨-, res, hret⟩ | ⟨hreach, -⟩
    · unfold onDisk
      rw [hret]
      trivial
    · obtain ⟨hroot, hentity⟩ := hok req hreq hreach
      apply Prog.AllCalls.through
      apply hresource.mono
      intro c hc
      rw [← hc] at hentity ⊢
      exact RealEntityStorage.perform_contained hroot hentity

/-- `..` is an entity. -/
theorem crud_escapes :
    ¬ ∀ req ∈ [jsonRequest "DELETE" "/api/../5" ""],
      (api.onDisk dataStorage req).AllCalls
        (dataStorage.Contained plainSystem (api.extractEntity req.uri)) := by
  intro hall
  have hcalls := hall _ (List.mem_singleton_self _)
  have hcall : api.onDisk dataStorage (jsonRequest "DELETE" "/api/../5" "")
      = .call (.remove "/data/../5".toList) (fun removed =>
          (Prog.ret removed).bind (Prog.orThrow fun result =>
            .ret (some (deleteAnswer
              (jsonRequest "DELETE" "/api/../5" "") result)))) := rfl
  rw [hcall] at hcalls
  obtain ⟨i, hi⟩ := hcalls.1
  have hlength := congrArg List.length hi
  have hup : (plainSystem.resolve "/data/../5".toList).length = 1 := by
    decide
  have hroot : (plainSystem.resolve dataStorage.root).length = 1 := by
    decide
  rw [List.length_append, hup, hroot] at hlength
  simp at hlength

end CrudRequestHandler

end Creeper
