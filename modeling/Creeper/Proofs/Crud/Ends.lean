/-
What the operations of the real storage come to, on any disk.

The other files about the storage let it begin on an empty directory;
here the disk is any disk, and the streams may fail. An operation that
writes throws when the directory of the resource cannot be made, with
some of the directories on the way made; else it has made it, and then
opened the file of an id or not, and what it has opened has what was
inserted (`CreateEnd`, `UpdateEnd`). The id that `create` takes is the
one after the largest that counts, where every name counts that `stoi`
reads (`counted`), whatever else is in it and whether it is a file's or
a directory's, one just made on the way included.

# Where the file of an id is

In the directory, under the numeral (`fileLoc`); but a path with a NUL
ends there, so the files of a resource whose directory has one are all
the directory itself.
-/
import Creeper.Lib.DiskFaults
import Creeper.Proofs.Crud.Semantics
import Creeper.Proofs.Crud.Throws

namespace Creeper

open Lib

namespace RealEntityStorage

variable {s : RealEntityStorage} {fs : FileSystem} {φ : DiskFaults}
  {e data : Str} {id : CInt} {d d₁ d' : Disk} {n : Nat}

-- ================================================================= locations

/-- The directory of a resource. -/
def dirLoc (s : RealEntityStorage) (fs : FileSystem) (e : Str) : Loc :=
  fs.resolve (s.makeEntityDir e)

/-- The places the path of the directory comes to. -/
def dirWays (s : RealEntityStorage) (fs : FileSystem) (e : Str) :
    List Loc :=
  fs.ways (s.makeEntityDir e)

/-- The place of an id in the directory of the resource. -/
def fileLoc (s : RealEntityStorage) (fs : FileSystem) (e : Str)
    (id : CInt) : Loc :=
  s.dirLoc fs e ++ [decimalInt id.val]

theorem fileLoc_ne_nil : s.fileLoc fs e id ≠ [] := by simp [fileLoc]

/-- The path of an id leads to its place. -/
theorem resolve_file (hnul : nul ∉ s.makeEntityDir e) :
    fs.resolve (s.makeEntityPath e id) = s.fileLoc fs e id :=
  FileSystem.resolve_ordinary hnul (ordinaryName_decimalInt id.val)

/-- In a directory, the path of an id leads to its place. -/
theorem leads_file (hdir : fs.IsDirectory (s.makeEntityDir e) d) :
    fs.leads (s.makeEntityPath e id) d = .ok () := by
  by_cases hnul : nul ∈ s.makeEntityDir e
  · have hsame : fs.leads (s.makeEntityPath e id) d
        = fs.leads (s.makeEntityDir e) d :=
      FileSystem.leads_pathAppend_nul hnul
        (ordinaryName_decimalInt id.val).head?_ne
    rw [hsame]
    exact hdir.leads
  · exact leads_makeEntityPath hnul hdir id

-- ================================================================== counting

/-- The disk with the directory of the resource made. -/
def made (s : RealEntityStorage) (fs : FileSystem) (e : Str) (d : Disk) :
    Disk :=
  d.mkdirs (s.dirWays fs e)

theorem Makeable.made (hclear : s.Makeable fs e d) :
    fs.IsDirectory (s.makeEntityDir e) (s.made fs e d) :=
  FileSystem.Makeable.isDirectory hclear

/-- The first call of `create` and `update` makes the directory, or
throws. -/
theorem makeDir_cases (s : RealEntityStorage) (fs : FileSystem)
    (φ : DiskFaults) (e : Str) (d : Disk) :
    (s.Makeable fs e d
        ∧ fs.serveUnder φ 0 (.createDirectories (s.makeEntityDir e)) d
          = (s.made fs e d, some ()))
      ∨ (¬ s.Makeable fs e d ∧ ∃ ways, ways <+: s.dirWays fs e
        ∧ fs.serveUnder φ 0 (.createDirectories (s.makeEntityDir e)) d
          = (d.mkdirs ways, none)) :=
  fs.serve_createDirectories (s.makeEntityDir e) d

/-- The ids that count: those that `stoi` reads off a name in the
directory, when it has been made. -/
def counted (s : RealEntityStorage) (fs : FileSystem) (e : Str)
    (d : Disk) : Set CInt :=
  {id | ∃ name, ((s.made fs e d).entry (s.dirLoc fs e ++ [name])).isSome
    ∧ ∃ k, stoi name = some (id, k)}

/-- An id whose place is taken counts. -/
theorem mem_counted_of_entry
    (h : ((s.made fs e d).entry (s.fileLoc fs e id)).isSome) :
    id ∈ s.counted fs e d :=
  ⟨decimalInt id.val, h, _, stoi_decimalInt id⟩

/-- What an iteration finds in the directory, when it has been made. -/
def scanned (s : RealEntityStorage) (fs : FileSystem) (e : Str) (d : Disk) :
    List DirEntry :=
  fs.order ((s.made fs e d).children (s.dirLoc fs e))

/-- An iteration finds the ids that count. -/
theorem mem_idsOfNames_scanned :
    id ∈ idsOfNames ((s.scanned fs e d).map DirEntry.name)
      ↔ id ∈ s.counted fs e d := by
  unfold counted scanned
  rw [mem_idsOfNames_iff]
  constructor
  · intro hex
    obtain ⟨name, hname, k, hk⟩ := hex
    obtain ⟨c, hc, rfl⟩ := List.mem_map.mp hname
    obtain ⟨x, hx, -⟩ :=
      Disk.mem_children.mp ((fs.order_perm _).mem_iff.mp hc)
    exact ⟨c.name, by rw [hx]; rfl, k, hk⟩
  · intro hex
    obtain ⟨name, hsome, k, hk⟩ := hex
    obtain ⟨x, hx⟩ := Option.isSome_iff_exists.mp hsome
    have hchild : (⟨name, x.isFile⟩ : DirEntry)
        ∈ (s.made fs e d).children (s.dirLoc fs e) :=
      Disk.mem_children.mpr ⟨x, hx, rfl⟩
    exact ⟨name, List.mem_map.mpr
      ⟨_, (fs.order_perm _).mem_iff.mpr hchild, rfl⟩, k, hk⟩

/-- The next id of a directory: none when `INT_MAX` counts, else the one
after the largest that counts. -/
theorem getNextAvailableId_scanned (s : RealEntityStorage)
    (fs : FileSystem) (e : Str) (d : Disk) :
    ((getNextAvailableId (s.scanned fs e d)).val < 0
        ∧ maxInt ∈ s.counted fs e d)
      ∨ ∃ k, IsGreatest (insert CInt.zero (s.counted fs e d)) k
        ∧ (getNextAvailableId (s.scanned fs e d)).val = k.val + 1 := by
  have hgreatest :=
    isGreatest_maxId (idsOfNames ((s.scanned fs e d).map DirEntry.name))
  have hids : {id | id ∈ idsOfNames ((s.scanned fs e d).map DirEntry.name)}
      = s.counted fs e d :=
    Set.ext fun id => mem_idsOfNames_scanned
  rw [hids] at hgreatest
  unfold getNextAvailableId
  rcases nextAvailableId_cases
      (idsOfNames ((s.scanned fs e d).map DirEntry.name)) with
    ⟨hmax, hfull⟩ | hnext
  · refine Or.inl ⟨by rw [hfull]; decide, ?_⟩
    have hvalue : maxId (idsOfNames ((s.scanned fs e d).map DirEntry.name))
        = maxInt :=
      Subtype.ext hmax
    rw [hvalue] at hgreatest
    -- the largest of the ids and zero is `INT_MAX`, and that is not zero
    exact (Set.mem_insert_iff.mp hgreatest.1).resolve_left (by decide)
  · exact Or.inr ⟨_, hgreatest, hnext⟩

-- ================================================================== streams

/-- The file of the id cannot be opened for output: the opening fails,
the path ends at a NUL, or the place lets no file be opened when the
directory of the resource has been made. -/
def Closed (s : RealEntityStorage) (fs : FileSystem) (φ : DiskFaults)
    (n : Nat) (e : Str) (id : CInt) (d : Disk) : Prop :=
  φ.opens n = false ∨ nul ∈ s.makeEntityDir e
    ∨ FileSystem.Shut (s.fileLoc fs e id) (s.made fs e d)

section Streams

variable {α : Type} (data : Str) (written failed : α)

/-- A file that cannot be opened is not written. -/
theorem eval_closed (hclear : s.Makeable fs e d)
    (hclosed : s.Closed fs φ n e id d) :
    Prog.eval (fs.serveUnder φ) n
        (.call (.openTruncate (s.makeEntityPath e id)) fun opened =>
          if opened then
            .call (.write (s.makeEntityPath e id) data) fun _ =>
              .ret written
          else .ret failed) (s.made fs e d)
      = (s.made fs e d, failed) := by
  have hcut : nul ∈ s.makeEntityDir e →
      fs.serve (.openTruncate (s.makeEntityPath e id)) (s.made fs e d)
        = (s.made fs e d, false) := by
    intro hnul
    apply FileSystem.serve_openTruncate_dir
    refine ⟨leads_file hclear.made, ?_⟩
    exact (FileSystem.found_pathAppend_nul hnul
      (ordinaryName_decimalInt id.val).head?_ne).trans hclear.made.found
  have hnot : fs.serveUnder φ n (.openTruncate (s.makeEntityPath e id))
      (s.made fs e d) = (s.made fs e d, false) := by
    unfold FileSystem.serveUnder
    simp only
    split
    · next hopens =>
      rcases hclosed with hfails | hnul | hplace
      · rw [hfails] at hopens
        cases hopens
      · exact hcut hnul
      · by_cases hnul : nul ∈ s.makeEntityDir e
        · exact hcut hnul
        · rw [FileSystem.serve_openTruncate (leads_file hclear.made)
            (endsWithName_makeEntityPath hnul id), resolve_file hnul]
          exact FileSystem.openTruncate_of_shut hplace
    · rfl
  rw [Prog.eval_call, hnot]
  rfl

/-- A file that is opened has what is inserted, and everything else is
as it was. -/
theorem eval_opened (hclear : s.Makeable fs e d)
    (hopen : ¬ s.Closed fs φ n e id d) :
    ∃ d', Prog.eval (fs.serveUnder φ) n
        (.call (.openTruncate (s.makeEntityPath e id)) fun opened =>
          if opened then
            .call (.write (s.makeEntityPath e id) data) fun _ =>
              .ret written
          else .ret failed) (s.made fs e d) = (d', written)
      ∧ d'.entry = upsert (s.made fs e d).entry (s.fileLoc fs e id)
          (.file (φ.inserted (n + 1) data)) := by
  unfold Closed at hopen
  rw [not_or, not_or] at hopen
  obtain ⟨hopens, hnul, hplace⟩ := hopen
  rw [Bool.not_eq_false] at hopens
  have hopened : fs.serveUnder φ n (.openTruncate (s.makeEntityPath e id))
      (s.made fs e d)
      = ((s.made fs e d).put (s.fileLoc fs e id) (.file []), true) := by
    unfold FileSystem.serveUnder
    simp only
    rw [if_pos hopens,
      FileSystem.serve_openTruncate (leads_file hclear.made)
        (endsWithName_makeEntityPath hnul id),
      resolve_file hnul, FileSystem.openTruncate_of_not_shut hplace]
  have hloc : s.fileLoc fs e id ≠ [] := fileLoc_ne_nil
  have hwritten := FileSystem.write_of_empty
    (Disk.entry_put_self (d := s.made fs e d) hloc)
    (φ.inserted (n + 1) data)
  refine ⟨FileSystem.write (s.fileLoc fs e id) (φ.inserted (n + 1) data)
    ((s.made fs e d).put (s.fileLoc fs e id) (.file [])), ?_, ?_⟩
  · rw [Prog.eval_call, hopened, ← resolve_file hnul]
    rfl
  · rw [hwritten]
    funext l
    by_cases hl : l = s.fileLoc fs e id
    · rw [hl, upsert_same, Disk.entry_put_self hloc]
    · rw [upsert_ne _ hl, Disk.entry_put_ne hloc hl,
        Disk.entry_put_ne hloc hl]

end Streams

-- =================================================================== create

/-- The ends of `create`: `none` where it throws. -/
inductive CreateEnd (s : RealEntityStorage) (fs : FileSystem)
    (φ : DiskFaults) (e data : Str) (d : Disk) :
    Disk × Option (Option CInt) → Prop
  /-- The directory cannot be made, but some on the way to it. -/
  | threw (hclear : ¬ s.Makeable fs e d) (ways : List Loc)
      (hways : ways <+: s.dirWays fs e) :
      CreateEnd s fs φ e data d (d.mkdirs ways, none)
  /-- There is no id left. -/
  | full (hclear : s.Makeable fs e d)
      (hfull : maxInt ∈ s.counted fs e d) :
      CreateEnd s fs φ e data d (s.made fs e d, some none)
  /-- There is one, and its file is not opened. -/
  | notOpened (hclear : s.Makeable fs e d) (id k : CInt)
      (hlast : IsGreatest (insert CInt.zero (s.counted fs e d)) k)
      (hid : id.val = k.val + 1)
      (hclosed : φ.opens 2 = false ∨ nul ∈ s.makeEntityDir e
        ∨ (s.made fs e d).entry (s.dirLoc fs e) ≠ some .dir) :
      CreateEnd s fs φ e data d (s.made fs e d, some none)
  /-- There is one, and its file is written. -/
  | created (hclear : s.Makeable fs e d) (id k : CInt)
      (hlast : IsGreatest (insert CInt.zero (s.counted fs e d)) k)
      (hid : id.val = k.val + 1)
      (hopens : φ.opens 2 = true) (hnul : nul ∉ s.makeEntityDir e)
      (hthere : (s.made fs e d).entry (s.dirLoc fs e) = some .dir)
      (d' : Disk)
      (hentry : d'.entry = upsert (s.made fs e d).entry
        (s.fileLoc fs e id) (.file (φ.inserted 3 data))) :
      CreateEnd s fs φ e data d (d', some (some id))

/-- The id after the largest that counts has no entry. -/
theorem entry_of_next {k : CInt}
    (hlast : IsGreatest (insert CInt.zero (s.counted fs e d)) k)
    (hid : id.val = k.val + 1) :
    (s.made fs e d).entry (s.fileLoc fs e id) = none := by
  cases hentry : (s.made fs e d).entry (s.fileLoc fs e id) with
  | none => rfl
  | some x =>
      have hmem : id ∈ s.counted fs e d :=
        mem_counted_of_entry (by rw [hentry]; rfl)
      have hle : id.val ≤ k.val := hlast.2 (Set.mem_insert_of_mem _ hmem)
      omega

/-- Where there is nothing, a file is made unless the directory has been
removed. -/
theorem shut_fileLoc_iff {d : Disk}
    (hnone : d.entry (s.fileLoc fs e id) = none) :
    FileSystem.Shut (s.fileLoc fs e id) d
      ↔ d.entry (s.dirLoc fs e) ≠ some .dir := by
  have hparent : (s.fileLoc fs e id).dropLast = s.dirLoc fs e :=
    List.dropLast_concat
  unfold FileSystem.Shut
  rw [hnone, hparent]
  simp

/-- `create` comes to an end once it has an id. -/
theorem createOpen_end {φ : DiskFaults} {k id : CInt} (data : Str)
    (hclear : s.Makeable fs e d)
    (hlast : IsGreatest (insert CInt.zero (s.counted fs e d)) k)
    (hid : id.val = k.val + 1) :
    s.CreateEnd fs φ e data d (Prog.eval (fs.serveUnder φ) 2
      (s.createOpen e data id) (s.made fs e d)) := by
  have hshut := shut_fileLoc_iff (entry_of_next hlast hid)
  unfold createOpen createWrite
  by_cases hclosed : s.Closed fs φ 2 e id d
  · rw [eval_closed _ _ _ hclear hclosed]
    unfold Closed at hclosed
    rw [hshut] at hclosed
    exact .notOpened hclear id k hlast hid hclosed
  · obtain ⟨d', heval, hentry⟩ := eval_opened data (some (some id))
      (some none) hclear hclosed
    rw [heval]
    unfold Closed at hclosed
    rw [not_or, not_or, Bool.not_eq_false, hshut, not_not] at hclosed
    exact .created hclear id k hlast hid hclosed.1 hclosed.2.1 hclosed.2.2
      d' hentry

/-- `create` comes to an end. -/
theorem create_end (s : RealEntityStorage) (fs : FileSystem)
    (φ : DiskFaults) (e data : Str) (d : Disk) :
    s.CreateEnd fs φ e data d
      (Prog.eval (fs.serveUnder φ) 0 (s.create e data) d) := by
  unfold create
  rw [Prog.eval_call]
  rcases s.makeDir_cases fs φ e d with
    ⟨hclear, hmade⟩ | ⟨hnot, ways, hways, hmade⟩
  · have hscan : fs.serveUnder φ 1 (.directoryIterator (s.makeEntityDir e))
        (s.made fs e d) = (s.made fs e d, some (s.scanned fs e d)) :=
      FileSystem.serve_directoryIterator hclear.isDirectory
    rw [hmade]
    simp only
    unfold createScan
    rw [Prog.eval_call, hscan]
    simp only
    rcases getNextAvailableId_scanned s fs e d with
      ⟨hneg, hfull⟩ | ⟨k, hlast, hid⟩
    · rw [if_pos hneg]
      exact .full hclear hfull
    · have hpos : 0 ≤ k.val := hlast.2 (Set.mem_insert _ _)
      rw [if_neg (by omega)]
      exact createOpen_end data hclear hlast hid
  · rw [hmade]
    exact .threw hnot ways hways

-- =================================================================== update

/-- The ends of `update`: `none` where it throws. -/
inductive UpdateEnd (s : RealEntityStorage) (fs : FileSystem)
    (φ : DiskFaults) (e : Str) (id : CInt) (data : Str) (d : Disk) :
    Disk × Option Bool → Prop
  /-- The directory cannot be made, but some on the way to it. -/
  | threw (hclear : ¬ s.Makeable fs e d) (ways : List Loc)
      (hways : ways <+: s.dirWays fs e) :
      UpdateEnd s fs φ e id data d (d.mkdirs ways, none)
  /-- The file is not opened. -/
  | notOpened (hclear : s.Makeable fs e d)
      (hclosed : s.Closed fs φ 1 e id d) :
      UpdateEnd s fs φ e id data d (s.made fs e d, some false)
  /-- The file is written. -/
  | updated (hclear : s.Makeable fs e d)
      (hopen : ¬ s.Closed fs φ 1 e id d) (d' : Disk)
      (hentry : d'.entry = upsert (s.made fs e d).entry
        (s.fileLoc fs e id) (.file (φ.inserted 2 data))) :
      UpdateEnd s fs φ e id data d (d', some true)

/-- `update` comes to an end. -/
theorem update_end (s : RealEntityStorage) (fs : FileSystem)
    (φ : DiskFaults) (e : Str) (id : CInt) (data : Str) (d : Disk) :
    s.UpdateEnd fs φ e id data d
      (Prog.eval (fs.serveUnder φ) 0 (s.update e id data) d) := by
  unfold update
  rw [Prog.eval_call]
  rcases s.makeDir_cases fs φ e d with
    ⟨hclear, hmade⟩ | ⟨hnot, ways, hways, hmade⟩
  · rw [hmade]
    simp only
    unfold updateOpen
    by_cases hclosed : s.Closed fs φ 1 e id d
    · rw [eval_closed _ _ _ hclear hclosed]
      exact .notOpened hclear hclosed
    · obtain ⟨d', heval, hentry⟩ := eval_opened data (some true) (some false)
        hclear hclosed
      rw [heval]
      exact .updated hclear hclosed d' hentry
  · rw [hmade]
    exact .threw hnot ways hways

-- ================================================================= retrieve

/-- What is found under a path: everything there is, a directory read as
an empty file. -/
theorem serve_retrieve_eq (s : RealEntityStorage) (fs : FileSystem)
    (e : Str) (id : CInt) (d : Disk) :
    s.serve fs (.retrieve e id) d
      = (d, some (if fs.leads (s.makeEntityPath e id) d = .ok ()
            ∧ (fs.found (s.makeEntityPath e id) d).isSome then
          some (fs.contents (s.makeEntityPath e id) d)
        else none)) := by
  unfold serve perform retrieve
  rw [Prog.eval_call]
  cases hleads : fs.leads (s.makeEntityPath e id) d with
  | error why =>
      rw [FileSystem.serve_openRead_error hleads]
      rfl
  | ok u =>
      rw [FileSystem.serve_openRead hleads]
      cases (fs.found (s.makeEntityPath e id) d).isSome <;> rfl

/-- A file under a numeral is retrieved. -/
theorem retrieve_of_file {content : Str}
    (hdir : fs.IsDirectory (s.makeEntityDir e) d)
    (hnul : nul ∉ s.makeEntityDir e)
    (hfile : d.entry (s.fileLoc fs e id) = some (.file content)) :
    s.serve fs (.retrieve e id) d = (d, some (some content)) := by
  have hname := endsWithName_makeEntityPath hnul id
  have hfound : (fs.found (s.makeEntityPath e id) d).isSome := by
    unfold FileSystem.found
    rw [if_pos hname, resolve_file hnul, hfile]
    rfl
  rw [serve_retrieve_eq, if_pos ⟨leads_file hdir, hfound⟩]
  unfold FileSystem.contents
  rw [if_pos hname, resolve_file hnul, FileSystem.content_of_file hfile]

/-- What is retrieved goes on being retrieved while entries stay. -/
theorem retrieve_mono {content : Str}
    (hkept : Submap d.entry d'.entry)
    (hfound : (s.serve fs (.retrieve e id) d).2 = some (some content)) :
    s.serve fs (.retrieve e id) d' = (d', some (some content)) := by
  rw [serve_retrieve_eq] at hfound ⊢
  simp only [Option.some.injEq, Option.ite_none_right_eq_some] at hfound
  obtain ⟨⟨hleads, hsome⟩, hcontent⟩ := hfound
  have hleads' : fs.leads (s.makeEntityPath e id) d' = .ok () :=
    FileSystem.leads_mono (fun l hl => hkept l _ hl) hleads
  unfold FileSystem.found at hsome ⊢
  unfold FileSystem.contents at hcontent ⊢
  split at hsome
  · next hname =>
    obtain ⟨x, hx⟩ := Option.isSome_iff_exists.mp hsome
    have hx' := hkept _ _ hx
    rw [if_pos hname] at hcontent ⊢
    rw [if_pos hname, hx', if_pos ⟨hleads', rfl⟩, ← hcontent]
    unfold Disk.content
    rw [hx, hx']
  · next hname =>
    rw [if_neg hname] at hcontent ⊢
    rw [if_neg hname, if_pos ⟨hleads', rfl⟩, hcontent]

/-- Making directories keeps every entry. -/
theorem submap_mkdirs (d : Disk) (ways : List Loc) :
    Submap d.entry (d.mkdirs ways).entry :=
  fun _ _ h => Disk.entry_mkdirs_some h ways

end RealEntityStorage

end Creeper
