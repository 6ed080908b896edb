/-
What creating and updating promise, and what they keep.

# Never overwriting

Both storages hand out the id after the largest in use (`Fresh`). In the
simulated one the ids in use are the keys. In the real one they are read
off the names in the directory, and a name can be read as an id without
being its numeral; but a numeral always counts as its id, so the place
that is written was free (`entry_of_next`). `create_fresh` is this for
any state of either storage.

# Honest answers

The opening of the file is checked, the insertion is not, so an answer
of success stands for an opened file only. `honest_iff` says that this
is all that is wrong: the answers are honest exactly when whatever is
opened gets all of the data.
-/
import Creeper.Proofs.Crud.Ends

namespace Creeper

open Lib

/-- The id after the largest of some and zero. -/
structure Fresh (used : Set CInt) (id : CInt) : Prop where
  positive : 0 < id.val
  above : ∀ j ∈ used, j.val < id.val
  next : ∃ k ∈ insert CInt.zero used, k.val < intMax ∧ id.val = k.val + 1

/-- One more than the largest is fresh. -/
theorem fresh_of_greatest {used : Set CInt} {k id : CInt}
    (hlast : IsGreatest (insert CInt.zero used) k)
    (hid : id.val = k.val + 1) : Fresh used id := by
  have hzero : 0 ≤ k.val := hlast.2 (Set.mem_insert _ _)
  have hmax := id.property.2
  refine ⟨by omega, fun j hj => ?_, k, hlast.1, by omega, hid⟩
  have hle : j.val ≤ k.val := hlast.2 (Set.mem_insert_of_mem _ hj)
  omega

/-- There is a fresh id only while `INT_MAX` is free. -/
theorem Fresh.max_unused {used : Set CInt} {id : CInt}
    (h : Fresh used id) : maxInt ∉ used := by
  intro hmem
  have hlt : intMax < id.val := h.above _ hmem
  have hmax := id.property.2
  omega

-- =================================================== the simulated storage

namespace SimEntityStorage

/-- `create` fails exactly when `INT_MAX` is in use, and changes nothing
then; else it stores the data under a fresh id and changes nothing
else. -/
def CreatesFresh (storage : SimEntityStorage) (resource data : Str) :
    Prop :=
  ((storage.create resource data).2 = none
      ↔ maxInt ∈ IdMap.ids storage.retrieve resource)
    ∧ ((storage.create resource data).2 = none →
      (storage.create resource data).1.retrieve = storage.retrieve)
    ∧ ∀ id, (storage.create resource data).2 = some id →
      Fresh (IdMap.ids storage.retrieve resource) id
      ∧ storage.retrieve resource id = none
      ∧ (storage.create resource data).1.retrieve
        = IdMap.set storage.retrieve resource id data

theorem createsFresh (storage : SimEntityStorage) (resource data : Str) :
    storage.CreatesFresh resource data := by
  unfold CreatesFresh
  have hans := create_answers storage resource data
  obtain ⟨k, hlast, hk⟩ := hans.of_create
  have hgreatest : IsGreatest
      (insert CInt.zero (IdMap.ids storage.retrieve resource)) k := hlast
  rcases hk with ⟨hmax, hnone, hsame⟩ | ⟨id, hid, hsome, hset⟩
  · rw [hnone, hsame]
    have hvalue : k = maxInt := Subtype.ext hmax
    rw [hvalue] at hgreatest
    have hmem := (Set.mem_insert_iff.mp hgreatest.1).resolve_left (by decide)
    exact ⟨iff_of_true rfl hmem, fun _ => rfl, by simp⟩
  · have hfresh := fresh_of_greatest hgreatest hid
    rw [hsome, hset]
    refine ⟨iff_of_false (by simp) hfresh.max_unused, by simp, ?_⟩
    intro id' heq
    obtain rfl := Option.some.inj heq
    refine ⟨hfresh, ?_, rfl⟩
    cases hfound : storage.retrieve resource id with
    | none => rfl
    | some content =>
        have hlt := hfresh.above id (show (storage.retrieve resource id).isSome
          by rw [hfound]; rfl)
        omega

end SimEntityStorage

-- ======================================================== the real storage

namespace RealEntityStorage

variable {s : RealEntityStorage} {fs : FileSystem} {φ : DiskFaults}
  {e data : Str} {id : CInt} {d d' : Disk}

/-- `create` throws where the directory cannot be made, with no more
than some of the directories on the way made then. Else it fails exactly
when a name counts as `INT_MAX`, or the path of the directory has a NUL
or is a removed working directory's, and makes no more than the
directory; or it stores the data under a fresh id, where nothing was,
and makes no more than the directory besides. -/
def CreatesFresh (s : RealEntityStorage) (fs : FileSystem) (e data : Str)
    (d : Disk) : Prop :=
  (¬ s.Makeable fs e d ∧ ∃ ways, ways <+: s.dirWays fs e
      ∧ s.serve fs (.create e data) d = (d.mkdirs ways, none))
    ∨ (s.Makeable fs e d ∧ ∃ d' r,
      s.serve fs (.create e data) d = (d', some r)
      ∧ (r = none ↔ maxInt ∈ s.counted fs e d
        ∨ nul ∈ s.makeEntityDir e
        ∨ (s.made fs e d).entry (s.dirLoc fs e) ≠ some .dir)
      ∧ (r = none → d' = s.made fs e d)
      ∧ ∀ id, r = some id →
        Fresh (s.counted fs e d) id
        ∧ (s.made fs e d).entry (s.fileLoc fs e id) = none
        ∧ d'.entry = upsert (s.made fs e d).entry
            (s.fileLoc fs e id) (.file data))

theorem createsFresh (s : RealEntityStorage) (fs : FileSystem)
    (e data : Str) (d : Disk) : s.CreatesFresh fs e data d := by
  have hend := s.create_end fs .none e data d
  rw [FileSystem.serveUnder_none] at hend
  change s.CreateEnd fs .none e data d (s.serve fs (.create e data) d)
    at hend
  unfold CreatesFresh
  generalize s.serve fs (.create e data) d = end_ at hend
  cases hend with
  | threw hclear ways hways => exact Or.inl ⟨hclear, ways, hways, rfl⟩
  | full hclear hfull =>
      exact Or.inr ⟨hclear, _, none, rfl, iff_of_true rfl (Or.inl hfull),
        fun _ => rfl, by simp⟩
  | notOpened hclear id k hlast hid hclosed =>
      have hno := hclosed.resolve_left (by decide)
      exact Or.inr ⟨hclear, _, none, rfl, iff_of_true rfl (Or.inr hno),
        fun _ => rfl, by simp⟩
  | created hclear id k hlast hid hopens hnul hthere d' hentry =>
      have hfresh := fresh_of_greatest hlast hid
      refine Or.inr ⟨hclear, d', some id, rfl, ?_, by simp, ?_⟩
      · refine iff_of_false (by simp) ?_
        intro hor
        rcases hor with hfull | hnul' | hgone
        · exact hfresh.max_unused hfull
        · exact hnul hnul'
        · exact hgone hthere
      · intro id' heq
        obtain rfl := Option.some.inj heq
        exact ⟨hfresh, entry_of_next hlast hid, hentry⟩

end RealEntityStorage

/-- Creating never overwrites. Whatever is in either storage, a create
that returns an id has stored its data under a fresh one, where nothing
was, and everything else is as it was; and one that does not return an
id has changed no entity, and is for lack of ids exactly when `INT_MAX`
is in use or, on disk, read off some name. -/
theorem create_fresh (storage : SimEntityStorage) (s : RealEntityStorage)
    (fs : FileSystem) (d : Disk) (resource data : Str) :
    storage.CreatesFresh resource data ∧ s.CreatesFresh fs resource data d :=
  ⟨storage.createsFresh resource data, s.createsFresh fs resource data d⟩

-- ========================================================== honest answers

namespace RealEntityStorage

variable {s : RealEntityStorage} {fs : FileSystem} {φ : DiskFaults}
  {e data : Str} {id : CInt} {d d' : Disk}

/-- Every entity retrievable before is retrievable after, with the same
content. -/
def KeepsEntities (s : RealEntityStorage) (fs : FileSystem) (d d' : Disk) :
    Prop :=
  ∀ e id content, (s.serve fs (.retrieve e id) d).2 = some (some content) →
    (s.serve fs (.retrieve e id) d').2 = some (some content)

/-- An id that is returned has the data, and no id means that nothing is
lost. -/
def HonestCreate (s : RealEntityStorage) (fs : FileSystem)
    (φ : DiskFaults) (e data : Str) (d : Disk) : Prop :=
  let end_ := Prog.eval (fs.serveUnder φ) 0 (s.create e data) d
  (∀ id, end_.2 = some (some id) →
      (s.serve fs (.retrieve e id) end_.1).2 = some (some data))
    ∧ (end_.2 = some none → s.KeepsEntities fs d end_.1)

/-- An update that returns true has stored the data, and false means that
nothing is lost. -/
def HonestUpdate (s : RealEntityStorage) (fs : FileSystem)
    (φ : DiskFaults) (e : Str) (id : CInt) (data : Str) (d : Disk) : Prop :=
  let end_ := Prog.eval (fs.serveUnder φ) 0 (s.update e id data) d
  (end_.2 = some true →
      (s.serve fs (.retrieve e id) end_.1).2 = some (some data))
    ∧ (end_.2 = some false → s.KeepsEntities fs d end_.1)

/-- `create` gets to insert: the directory can be made and is there then,
an id is left, and the file of it is opened. -/
def CreateInserts (s : RealEntityStorage) (fs : FileSystem)
    (φ : DiskFaults) (e : Str) (d : Disk) : Prop :=
  s.Makeable fs e d ∧ (s.made fs e d).entry (s.dirLoc fs e) = some .dir
    ∧ maxInt ∉ s.counted fs e d ∧ nul ∉ s.makeEntityDir e
    ∧ φ.opens 2 = true

/-- `update` gets to insert: the directory can be made, and the file of
the id is opened. -/
def UpdateInserts (s : RealEntityStorage) (fs : FileSystem)
    (φ : DiskFaults) (e : Str) (id : CInt) (d : Disk) : Prop :=
  s.Makeable fs e d ∧ ¬ s.Closed fs φ 1 e id d

/-- Directories that are made keep every entity. -/
theorem keepsEntities_mkdirs (s : RealEntityStorage) (fs : FileSystem)
    (d : Disk) (ways : List Loc) :
    s.KeepsEntities fs d (d.mkdirs ways) := by
  intro e id content hfound
  rw [retrieve_mono (submap_mkdirs d ways) hfound]

/-- What was inserted is what is retrieved. -/
theorem retrieve_inserted {content : Str} (hclear : s.Makeable fs e d)
    (hnul : nul ∉ s.makeEntityDir e)
    (hplace : (s.made fs e d).entry (s.fileLoc fs e id) ≠ some .dir)
    (hentry : d'.entry = upsert (s.made fs e d).entry (s.fileLoc fs e id)
      (.file content)) :
    (s.serve fs (.retrieve e id) d').2 = some (some content) := by
  have hfile : d'.entry (s.fileLoc fs e id) = some (.file content) := by
    rw [hentry, upsert_same]
  have hkept : Disk.DirsKept (s.made fs e d) d' := by
    intro l hl
    rw [hentry, upsert_ne]
    · exact hl
    · intro heq
      subst heq
      exact hplace hl
  rw [retrieve_of_file (hclear.made.mono hkept) hnul hfile]

/-- A create is honest exactly when it gets all of the data through, or
does not get to insert. -/
theorem honestCreate_iff :
    s.HonestCreate fs φ e data d
      ↔ (s.CreateInserts fs φ e d → φ.inserted 3 data = data) := by
  have hend := s.create_end fs φ e data d
  unfold HonestCreate CreateInserts
  generalize Prog.eval (fs.serveUnder φ) 0 (s.create e data) d = end_ at hend
  cases hend with
  | threw hclear =>
      exact iff_of_true ⟨by simp, by simp⟩ fun h => absurd h.1 hclear
  | full hclear hfull =>
      exact iff_of_true ⟨by simp, fun _ => keepsEntities_mkdirs s fs d _⟩
        fun h => absurd hfull h.2.2.1
  | notOpened hclear id k hlast hid hclosed =>
      refine iff_of_true ⟨by simp, fun _ => keepsEntities_mkdirs s fs d _⟩ ?_
      intro hex
      obtain ⟨-, hthere, -, hnul, hopens⟩ := hex
      rcases hclosed with hfails | hnul' | hgone
      · rw [hfails] at hopens
        cases hopens
      · exact absurd hnul' hnul
      · exact absurd hthere hgone
  | created hclear id k hlast hid hopens hnul hthere d' hentry =>
      have hfree := entry_of_next hlast hid
      have hfound := retrieve_inserted hclear hnul (by simp [hfree]) hentry
      have hunused := (fresh_of_greatest hlast hid).max_unused
      constructor
      · intro hex _
        obtain ⟨honest, -⟩ := hex
        have hdata := honest id rfl
        rw [hfound] at hdata
        exact Option.some.inj (Option.some.inj hdata)
      · intro hall
        refine ⟨fun id' heq => ?_, by simp⟩
        obtain rfl := Option.some.inj (Option.some.inj heq)
        rw [hfound, hall ⟨hclear, hthere, hunused, hnul, hopens⟩]

/-- An update is honest exactly when it gets all of the data through, or
does not get to insert. -/
theorem honestUpdate_iff :
    s.HonestUpdate fs φ e id data d
      ↔ (s.UpdateInserts fs φ e id d → φ.inserted 2 data = data) := by
  have hend := s.update_end fs φ e id data d
  unfold HonestUpdate UpdateInserts
  generalize Prog.eval (fs.serveUnder φ) 0 (s.update e id data) d = end_
    at hend
  cases hend with
  | threw hclear =>
      exact iff_of_true ⟨by simp, by simp⟩ fun h => absurd h.1 hclear
  | notOpened hclear hclosed =>
      exact iff_of_true ⟨by simp, fun _ => keepsEntities_mkdirs s fs d _⟩
        fun h => absurd hclosed h.2
  | updated hclear hopen d' hentry =>
      have hnul : nul ∉ s.makeEntityDir e := fun h => hopen (Or.inr (Or.inl h))
      have hfound := retrieve_inserted hclear hnul
        (fun h => hopen (Or.inr (Or.inr (Or.inl h)))) hentry
      constructor
      · intro hex _
        obtain ⟨honest, -⟩ := hex
        have hdata := honest rfl
        rw [hfound] at hdata
        exact Option.some.inj (Option.some.inj hdata)
      · intro hall
        refine ⟨fun _ => ?_, by simp⟩
        rw [hfound, hall ⟨hclear, hopen⟩]

/-- Honest answers, exactly. For every disk and every way the opening and
the insertion can go: the answer of a create or an update is honest if
and only if the insertion, where it is gone into, gets all of the data
through. -/
theorem honest_iff (s : RealEntityStorage) (fs : FileSystem)
    (φ : DiskFaults) (e : Str) (id : CInt) (data : Str) (d : Disk) :
    (s.HonestCreate fs φ e data d
        ↔ (s.CreateInserts fs φ e d → φ.inserted 3 data = data))
      ∧ (s.HonestUpdate fs φ e id data d
        ↔ (s.UpdateInserts fs φ e id d → φ.inserted 2 data = data)) :=
  ⟨honestCreate_iff, honestUpdate_iff⟩

/-- Files are opened, and no character gets through. -/
def fullDevice : DiskFaults := ⟨fun _ => true, fun _ => some 0⟩

theorem create_dishonest :
    ¬ dataStorage.HonestCreate plainSystem fullDevice "a".toList "x".toList
      dataDisk := by
  intro hex
  obtain ⟨honest, -⟩ := hex
  have hanswer : (Prog.eval (plainSystem.serveUnder fullDevice) 0
      (dataStorage.create "a".toList "x".toList) dataDisk).2
      = some (some (.ofInt 1)) := by
    decide +kernel
  have hlost : (dataStorage.serve plainSystem
      (.retrieve "a".toList (.ofInt 1))
      (Prog.eval (plainSystem.serveUnder fullDevice) 0
        (dataStorage.create "a".toList "x".toList) dataDisk).1).2
      = some (some []) := by
    decide +kernel
  have hfound := honest _ hanswer
  rw [hlost] at hfound
  cases hfound

end RealEntityStorage

end Creeper
