/-
The two entity storages (include/ientity_storage.h,
src/sim_entity_storage.cc, src/real_entity_storage.cc).

`StoreCall` is the interface, `IEntityStorage`. The simulated storage is
a state that serves its calls. The real one keeps nothing but its root
path: each of its operations is a program over the calls on the file
system, so that it can be run alone or among others.

# Exceptions

The simulated storage throws nothing. An operation of the real one ends
with `none` where a `filesystem_error` leaves it.

# The next id

Both storages look for the largest id in use, starting at zero, and
refuse when it is `INT_MAX`. The simulated one has its ids as map keys,
the real one reads them off the file names; the loop is the same
(`nextAvailableId`).
-/
import Creeper.Http
import Creeper.Lib.FileSystem
import Creeper.Lib.Stoi
import Creeper.Lib.Submap
import Mathlib.Data.List.Pairwise

namespace Creeper

open Lib

-- =========================================================== the interface

/-- The calls of `IEntityStorage`. -/
inductive StoreCall
  | create (resource data : Str)
  | retrieve (resource : Str) (id : CInt)
  | update (resource : Str) (id : CInt) (data : Str)
  | remove (resource : Str) (id : CInt)
  | list (resource : Str)

/-- What each call returns. -/
abbrev StoreCall.Reply : StoreCall → Type
  | .create _ _ => Option CInt
  | .retrieve _ _ => Option Str
  | .update _ _ _ => Bool
  | .remove _ _ => Bool
  | .list _ => List CInt

/-- The resource a call is about. -/
def StoreCall.resource : StoreCall → Str
  | .create resource _ => resource
  | .retrieve resource _ => resource
  | .update resource _ _ => resource
  | .remove resource _ => resource
  | .list resource => resource

/-- The loop for the largest id, from zero. -/
def maxId (ids : List CInt) : CInt :=
  ids.foldl (fun max id => if max.val < id.val then id else max) .zero

/-- The rest of `get_next_available_id`: the number after the largest,
or -1 where there is none. -/
def nextAvailableId (ids : List CInt) : CInt :=
  if h : intMax ≤ (maxId ids).val then .ofInt (-1)
  else ⟨(maxId ids).val + 1, by
    have hmin := (maxId ids).property.1
    omega, by omega⟩

-- =================================================== the simulated storage

/-- `SimEntityStorage`: `storage`, resource by resource. -/
abbrev SimEntityStorage := Str → Option (Std.TreeMap CInt Str)

namespace SimEntityStorage

/-- No resources. -/
def empty : SimEntityStorage := fun _ => none

variable (storage : SimEntityStorage)

/-- `get_next_available_id` -/
def getNextAvailableId (resource : Str) : CInt :=
  match storage resource with
  | none => .ofInt 1
  | some entities => nextAvailableId entities.keys

/-- `create` -/
def create (resource data : Str) : SimEntityStorage × Option CInt :=
  let nextid := storage.getNextAvailableId resource
  if nextid = .ofInt (-1) then (storage, none)
  else
    match storage resource with
    | none =>
        (upsert storage resource ((∅ : Std.TreeMap CInt Str).insert nextid data),
          some nextid)
    | some entities =>
        (upsert storage resource (entities.insert nextid data), some nextid)

/-- `retrieve` -/
def retrieve (resource : Str) (id : CInt) : Option Str :=
  match storage resource with
  | none => none
  | some entities => entities[id]?

/-- `update` -/
def update (resource : Str) (id : CInt) (data : Str) :
    SimEntityStorage × Bool :=
  match storage resource with
  | some entities =>
      (upsert storage resource (entities.insert id data), true)
  | none =>
      (upsert storage resource ((∅ : Std.TreeMap CInt Str).insert id data),
        true)

/-- `remove`: a resource stays when its last entity goes. -/
def remove (resource : Str) (id : CInt) : SimEntityStorage × Bool :=
  match storage resource with
  | none => (storage, false)
  | some entities =>
      if id ∈ entities then
        (upsert storage resource (entities.erase id), true)
      else (storage, false)

/-- `list` -/
def list (resource : Str) : List CInt :=
  match storage resource with
  | none => []
  | some entities => entities.keys

/-- One call served. -/
def serve : Server StoreCall StoreCall.Reply SimEntityStorage
  | .create resource data, storage => create storage resource data
  | .retrieve resource id, storage => (storage, retrieve storage resource id)
  | .update resource id data, storage => update storage resource id data
  | .remove resource id, storage => remove storage resource id
  | .list resource, storage => (storage, list storage resource)

end SimEntityStorage

-- ======================================================== the real storage

/-- A program over the file system that ends with a result, or with
`none` where it throws. -/
abbrev DiskProg (α : Type) : Type :=
  Prog DiskCall DiskCall.Reply (Option α)

/-- `RealEntityStorage`: `root_`. -/
structure RealEntityStorage where
  root : Str

namespace RealEntityStorage

/-- The ids `get_next_available_id` finds among the names of a
directory; a name that `stoi` throws on is passed over. -/
def idsOfNames (names : List Str) : List CInt :=
  names.filterMap fun name => (stoi name).map Prod.fst

/-- They are what some name is read as. -/
theorem mem_idsOfNames_iff {names : List Str} {id : CInt} :
    id ∈ idsOfNames names ↔ ∃ name ∈ names, ∃ k, stoi name = some (id, k) := by
  unfold idsOfNames
  rw [List.mem_filterMap]
  constructor
  · intro hmem
    obtain ⟨name, hname, hread⟩ := hmem
    obtain ⟨⟨_, k⟩, hk, rfl⟩ := Option.map_eq_some_iff.mp hread
    exact ⟨name, hname, k, hk⟩
  · intro hex
    obtain ⟨name, hname, k, hk⟩ := hex
    exact ⟨name, hname, by rw [hk]; rfl⟩

/-- None is found twice exactly if no two names are read as one. -/
theorem nodup_idsOfNames_iff {names : List Str} (hnodup : names.Nodup) :
    (idsOfNames names).Nodup
      ↔ ∀ name ∈ names, ∀ name' ∈ names, ∀ id k k',
        stoi name = some (id, k) → stoi name' = some (id, k') →
        name = name' := by
  unfold idsOfNames
  constructor
  · intro hids name hname name' hname' id k k' hk hk'
    by_contra hne
    rw [List.Nodup, List.pairwise_filterMap] at hids
    have hsymm : Std.Symm fun a b : Str =>
        ∀ i, (stoi a).map Prod.fst = some i →
          ∀ j, (stoi b).map Prod.fst = some j → i ≠ j :=
      ⟨fun a b h i hi j hj => (h j hj i hi).symm⟩
    have hapart := hids.forall hname hname' hne
    exact hapart id (by rw [hk]; rfl) id (by rw [hk']; rfl) rfl
  · intro hsame
    rw [List.Nodup, List.pairwise_filterMap]
    refine hnodup.imp_of_mem ?_
    intro name name' hname hname' hne id hid id' hid' heq
    obtain ⟨⟨j, k⟩, hk, rfl⟩ := Option.map_eq_some_iff.mp hid
    obtain ⟨⟨j', k'⟩, hk', rfl⟩ := Option.map_eq_some_iff.mp hid'
    obtain rfl : j = j' := heq
    exact hne (hsame name hname name' hname' j k k' hk hk')

/-- `get_next_available_id`, after the directory has been iterated. -/
def getNextAvailableId (entries : List DirEntry) : CInt :=
  nextAvailableId (idsOfNames (entries.map DirEntry.name))

/-- The ids `list` takes from a directory. -/
def listedIds (entries : List DirEntry) : List CInt :=
  idsOfNames ((entries.filter DirEntry.regular).map DirEntry.name)

variable (s : RealEntityStorage)

/-- The constructor: the data directory is made. -/
def construct : DiskProg Unit :=
  .call (.createDirectories s.root) fun made => .ret made

/-- `make_entity_dir` -/
def makeEntityDir (resource : Str) : Str := pathAppend s.root resource

/-- `make_entity_path` -/
def makeEntityPath (resource : Str) (id : CInt) : Str :=
  pathAppend (pathAppend s.root resource) (decimalInt id.val)

-- ---------------------------------------------------------------- create

/-- `create`, with the stream open. -/
def createWrite (resource data : Str) (id : CInt) : DiskProg (Option CInt) :=
  .call (.write (s.makeEntityPath resource id) data) fun _ =>
    .ret (some (some id))

/-- `create`, with the id chosen. -/
def createOpen (resource data : Str) (id : CInt) : DiskProg (Option CInt) :=
  .call (.openTruncate (s.makeEntityPath resource id)) fun opened =>
    if opened then s.createWrite resource data id else .ret (some none)

/-- `create`, with the directory made. -/
def createScan (resource data : Str) : DiskProg (Option CInt) :=
  .call (.directoryIterator (s.makeEntityDir resource)) fun entries =>
    match entries with
    | none => .ret none
    | some entries =>
        let id := getNextAvailableId entries
        if id.val < 0 then .ret (some none) else s.createOpen resource data id

/-- `create` -/
def create (resource data : Str) : DiskProg (Option CInt) :=
  .call (.createDirectories (s.makeEntityDir resource)) fun made =>
    match made with
    | none => .ret none
    | some _ => s.createScan resource data

-- ------------------------------------------------------------ the others

/-- `retrieve` -/
def retrieve (resource : Str) (id : CInt) : DiskProg (Option Str) :=
  .call (.openRead (s.makeEntityPath resource id)) fun opened =>
    if opened then
      .call (.read (s.makeEntityPath resource id)) fun content =>
        .ret (some (some content))
    else .ret (some none)

/-- `update`, with the directory made. -/
def updateOpen (resource : Str) (id : CInt) (data : Str) : DiskProg Bool :=
  .call (.openTruncate (s.makeEntityPath resource id)) fun opened =>
    if opened then
      .call (.write (s.makeEntityPath resource id) data) fun _ =>
        .ret (some true)
    else .ret (some false)

/-- `update` -/
def update (resource : Str) (id : CInt) (data : Str) : DiskProg Bool :=
  .call (.createDirectories (s.makeEntityDir resource)) fun made =>
    match made with
    | none => .ret none
    | some _ => s.updateOpen resource id data

/-- `remove` -/
def remove (resource : Str) (id : CInt) : DiskProg Bool :=
  .call (.remove (s.makeEntityPath resource id)) fun removed =>
    .ret removed

/-- `list`, from the iteration on. -/
def listScan (resource : Str) : DiskProg (List CInt) :=
  .call (.directoryIterator (s.makeEntityDir resource)) fun entries =>
    .ret (entries.map listedIds)

/-- `list` -/
def list (resource : Str) : DiskProg (List CInt) :=
  .call (.pathExists (s.makeEntityDir resource)) fun there =>
    match there with
    | none => .ret none
    | some false => .ret (some [])
    | some true =>
        .call (.isDirectory (s.makeEntityDir resource)) fun isDir =>
          match isDir with
          | none => .ret none
          | some false => .ret (some [])
          | some true => s.listScan resource

/-- Each call of the interface. -/
def perform : (c : StoreCall) → DiskProg c.Reply
  | .create resource data => s.create resource data
  | .retrieve resource id => s.retrieve resource id
  | .update resource id data => s.update resource id data
  | .remove resource id => s.remove resource id
  | .list resource => s.list resource

/-- One call served on the disk, with nothing else going on. -/
def serve (fs : FileSystem) (c : StoreCall) (d : Disk) :
    Disk × Option c.Reply :=
  Prog.eval (fun _ => fs.serve) 0 (s.perform c) d

end RealEntityStorage

end Creeper
