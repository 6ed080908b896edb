/-
Listing against retrieving.

`list` reads an id off the name of every regular file, as much of the
name as `stoi` takes, and `retrieve` looks an id up under its numeral.
The two go together exactly as far as the names that are read at all are
numerals (`Canonical`): any other of them stands for an id that has no
file, or has another one. For the converse `retrieve` must not find what
`list` passes over either, a directory under a numeral, nor the
directory itself for want of a path into it.
-/
import Creeper.Proofs.Crud.Ends

namespace Creeper

open Lib

namespace RealEntityStorage

variable {s : RealEntityStorage} {fs : FileSystem} {e data : Str}
  {id : CInt} {d d' : Disk}

-- ================================================================ vocabulary

/-- The directory of the resource is there, and not removed. -/
structure HasDirectory (s : RealEntityStorage) (fs : FileSystem) (e : Str)
    (d : Disk) : Prop where
  dir : fs.IsDirectory (s.makeEntityDir e) d
  there : d.entry (s.dirLoc fs e) = some .dir

/-- A file whose name is read as an id has the id's numeral as its
name. -/
def Canonical (s : RealEntityStorage) (fs : FileSystem) (e : Str)
    (d : Disk) : Prop :=
  ∀ name id k, d.isFile (s.dirLoc fs e ++ [name]) →
    stoi name = some (id, k) → name = decimalInt id.val

/-- The listing has each id once, and those whose numeral is the name of
a file. -/
def ListsFiles (s : RealEntityStorage) (fs : FileSystem) (e : Str)
    (d : Disk) (ids : List CInt) : Prop :=
  ids.Nodup ∧ ∀ id, id ∈ ids ↔ d.isFile (s.fileLoc fs e id)

/-- The entity is fetched, updated in its place and deleted, and nothing
else is touched. -/
structure Operable (s : RealEntityStorage) (fs : FileSystem) (e : Str)
    (id : CInt) (d : Disk) : Prop where
  fetched : ∃ content, d.entry (s.fileLoc fs e id) = some (.file content)
    ∧ s.serve fs (.retrieve e id) d = (d, some (some content))
  updated : ∀ data, ∃ d', s.serve fs (.update e id data) d = (d', some true)
    ∧ d'.entry = upsert d.entry (s.fileLoc fs e id) (.file data)
  deleted : ∃ d', s.serve fs (.remove e id) d = (d', some true)
    ∧ d'.entry = erase d.entry (s.fileLoc fs e id)

/-- The listing agrees with retrieval: it has the ids under which
something is retrieved, and all of them can be operated on. -/
def Agrees (s : RealEntityStorage) (fs : FileSystem) (e : Str) (d : Disk)
    (ids : List CInt) : Prop :=
  s.ListsFiles fs e d ids
    ∧ (∀ id, id ∈ ids ↔ ∃ content,
      (s.serve fs (.retrieve e id) d).2 = some (some content))
    ∧ ∀ id ∈ ids, s.Operable fs e id d

-- =============================================================== the listing

/-- A directory that is there is listed. -/
theorem serve_list (hdir : s.HasDirectory fs e d) :
    s.serve fs (.list e) d
      = (d, some (listedIds (fs.order (d.children (s.dirLoc fs e))))) := by
  have hexists := FileSystem.serve_pathExists hdir.dir.leads
  have hisDir := FileSystem.serve_isDirectory hdir.dir.leads
  have hscan : fs.serve (.directoryIterator (s.makeEntityDir e)) d
      = (d, some (fs.order (d.children (s.dirLoc fs e)))) :=
    FileSystem.serve_directoryIterator hdir.dir
  rw [hdir.dir.found] at hexists hisDir
  unfold serve perform list
  rw [Prog.eval_call, hexists]
  simp only [Option.isSome_some]
  rw [Prog.eval_call, hisDir]
  unfold listScan
  simp only [decide_true]
  rw [Prog.eval_call, hscan]
  rfl

/-- The names of the regular files, in the order of the iteration. -/
def fileNames (s : RealEntityStorage) (fs : FileSystem) (e : Str)
    (d : Disk) : List Str :=
  ((fs.order (d.children (s.dirLoc fs e))).filter DirEntry.regular).map
    DirEntry.name

theorem mem_fileNames {name : Str} :
    name ∈ s.fileNames fs e d ↔ d.isFile (s.dirLoc fs e ++ [name]) := by
  unfold fileNames
  rw [List.mem_map]
  constructor
  · intro hex
    obtain ⟨c, hc, rfl⟩ := hex
    obtain ⟨hmem, hregular⟩ := List.mem_filter.mp hc
    obtain ⟨x, hx, hfile⟩ :=
      Disk.mem_children.mp ((fs.order_perm _).mem_iff.mp hmem)
    unfold Disk.isFile
    rw [hx, ← hregular, hfile]
    rfl
  · intro hfile
    obtain ⟨content, hentry⟩ := Disk.isFile_iff.mp hfile
    have hchild : (⟨name, true⟩ : DirEntry) ∈ d.children (s.dirLoc fs e) :=
      Disk.mem_children.mpr ⟨_, hentry, rfl⟩
    exact ⟨_, List.mem_filter.mpr
      ⟨(fs.order_perm _).mem_iff.mpr hchild, rfl⟩, rfl⟩

theorem nodup_fileNames : (s.fileNames fs e d).Nodup := by
  have hall : ((fs.order (d.children (s.dirLoc fs e))).map
      DirEntry.name).Nodup :=
    ((fs.order_perm _).map DirEntry.name).nodup_iff.mpr
      (Disk.children_nodup d (s.dirLoc fs e))
  exact hall.sublist ((List.filter_sublist).map DirEntry.name)

/-- A listing reads ids off the names of the files. -/
theorem mem_idsOfNames_files :
    id ∈ idsOfNames (s.fileNames fs e d)
      ↔ ∃ name k, d.isFile (s.dirLoc fs e ++ [name])
        ∧ stoi name = some (id, k) := by
  rw [mem_idsOfNames_iff]
  constructor
  · intro hex
    obtain ⟨name, hname, k, hk⟩ := hex
    exact ⟨name, k, mem_fileNames.mp hname, hk⟩
  · intro hex
    obtain ⟨name, k, hfile, hk⟩ := hex
    exact ⟨name, mem_fileNames.mpr hfile, k, hk⟩

/-- The listing has the files under numerals exactly when every file that
is read as an id is under its numeral. -/
theorem listsFiles_iff :
    s.ListsFiles fs e d (idsOfNames (s.fileNames fs e d))
      ↔ s.Canonical fs e d := by
  constructor
  · intro hex name id k hname hread
    obtain ⟨hnodup, hmem⟩ := hex
    have hlisted := mem_idsOfNames_files.mpr ⟨name, k, hname, hread⟩
    -- two files read as one id would list it twice
    exact (nodup_idsOfNames_iff nodup_fileNames).mp hnodup
      name (mem_fileNames.mpr hname)
      (decimalInt id.val) (mem_fileNames.mpr ((hmem id).mp hlisted))
      id k _ hread (stoi_decimalInt id)
  · intro hcanonical
    refine ⟨?_, fun id => ?_⟩
    · rw [nodup_idsOfNames_iff nodup_fileNames]
      intro name hname name' hname' id k k' hk hk'
      have hfirst := hcanonical name id k (mem_fileNames.mp hname) hk
      have hsecond := hcanonical name' id k' (mem_fileNames.mp hname') hk'
      exact hfirst.trans hsecond.symm
    · rw [mem_idsOfNames_files]
      constructor
      · intro hex
        obtain ⟨name, k, hfile, hread⟩ := hex
        rw [hcanonical name id k hfile hread] at hfile
        exact hfile
      · intro hfile
        exact ⟨_, _, hfile, stoi_decimalInt id⟩

-- ============================================================ the operations

/-- Where the directory is there, making it changes nothing. -/
theorem HasDirectory.made (hdir : s.HasDirectory fs e d) :
    s.made fs e d = d :=
  hdir.dir.mkdirs

/-- An update with nothing failing writes the file, unless the path ends
at a NUL or the place is a directory's. -/
theorem HasDirectory.update (hdir : s.HasDirectory fs e d) (id : CInt)
    (data : Str) :
    (∃ d', s.serve fs (.update e id data) d = (d', some true)
        ∧ nul ∉ s.makeEntityDir e
        ∧ d'.entry = upsert d.entry (s.fileLoc fs e id) (.file data))
      ∨ ((s.serve fs (.update e id data) d).2 = some false
        ∧ (nul ∈ s.makeEntityDir e
          ∨ d.entry (s.fileLoc fs e id) = some .dir)) := by
  have hend := s.update_end fs .none e id data d
  rw [FileSystem.serveUnder_none] at hend
  change s.UpdateEnd fs .none e id data d
    (s.serve fs (.update e id data) d) at hend
  generalize s.serve fs (.update e id data) d = end_ at hend ⊢
  cases hend with
  | threw hclear =>
      exact absurd hdir.dir.makeable hclear
  | notOpened hclear hclosed =>
      unfold Closed at hclosed
      rw [hdir.made] at hclosed
      refine Or.inr ⟨rfl, ?_⟩
      rcases hclosed.resolve_left (by decide) with hnul | hdir' | hgone
      · exact Or.inl hnul
      · exact Or.inr hdir'
      · exact absurd hdir.there ((shut_fileLoc_iff hgone.1).mp (Or.inr hgone))
  | updated hclear hopen d' hentry =>
      rw [hdir.made] at hentry
      exact Or.inl ⟨d', rfl, fun h => hopen (Or.inr (Or.inl h)), hentry⟩

/-- A file under a numeral can be operated on. -/
theorem HasDirectory.operable (hdir : s.HasDirectory fs e d)
    (hnul : nul ∉ s.makeEntityDir e)
    (hfile : d.isFile (s.fileLoc fs e id)) : s.Operable fs e id d := by
  obtain ⟨content, hentry⟩ := Disk.isFile_iff.mp hfile
  refine ⟨⟨content, hentry, retrieve_of_file hdir.dir hnul hentry⟩,
    fun data => ?_, ?_⟩
  · rcases hdir.update id data with
      ⟨d', hserve, -, hentry'⟩ | ⟨-, hnul' | hplace⟩
    · exact ⟨d', hserve, hentry'⟩
    · exact absurd hnul' hnul
    · rw [hentry] at hplace
      cases hplace
  · refine ⟨d.drop (s.fileLoc fs e id), ?_, ?_⟩
    · unfold serve perform remove
      rw [Prog.eval_call, Prog.eval_ret,
        FileSystem.serve_remove (leads_file hdir.dir)
          (endsWithName_makeEntityPath hnul id), resolve_file hnul]
      unfold FileSystem.remove
      rw [hentry]
    · funext l
      rw [Disk.entry_drop fileLoc_ne_nil]
      by_cases hl : l = s.fileLoc fs e id
      · simp [erase, hl]
      · simp [erase, hl]

/-- What is retrieved under a path without NUL is a file, or a directory
read as one. -/
theorem HasDirectory.retrieved_iff (hdir : s.HasDirectory fs e d)
    (hnul : nul ∉ s.makeEntityDir e) :
    (∃ content, (s.serve fs (.retrieve e id) d).2 = some (some content))
      ↔ (d.entry (s.fileLoc fs e id)).isSome := by
  have hfound : fs.found (s.makeEntityPath e id) d
      = d.entry (s.fileLoc fs e id) :=
    FileSystem.found_pathAppend hnul (ordinaryName_decimalInt id.val)
  rw [serve_retrieve_eq, hfound, leads_file hdir.dir]
  simp

/-- Listing agrees with retrieving, exactly. For every directory that is
there, with whatever files and directories in it: the listing has each
id once and those whose numeral is a file's name if and only if every
file that is read as an id has the numeral of it as its name; and it has
the ids that retrieval finds, each fetched, updated in its place and
deleted, if and only if besides that the path of the directory has no
NUL and no directory in it has a numeral as its name. -/
theorem list_agrees_iff (s : RealEntityStorage) (fs : FileSystem) (e : Str)
    (d : Disk) (hdir : s.HasDirectory fs e d) :
    ∃ ids, s.serve fs (.list e) d = (d, some ids)
      ∧ (s.ListsFiles fs e d ids ↔ s.Canonical fs e d)
      ∧ (s.Agrees fs e d ids
        ↔ s.Canonical fs e d ∧ nul ∉ s.makeEntityDir e
          ∧ ∀ id, d.entry (s.fileLoc fs e id) ≠ some .dir) := by
  refine ⟨_, serve_list hdir, listsFiles_iff, ?_⟩
  constructor
  · intro hex
    obtain ⟨hlists, hfound, hoperable⟩ := hex
    have hcanonical := listsFiles_iff.mp hlists
    have hnul : nul ∉ s.makeEntityDir e := by
      -- everything would be found, and nothing could be updated
      intro hnul
      have hname : fs.found (s.makeEntityPath e CInt.zero) d = some .dir :=
        (FileSystem.found_pathAppend_nul hnul
          (ordinaryName_decimalInt 0).head?_ne).trans hdir.dir.found
      have hlisted := (hfound CInt.zero).mpr
        ⟨fs.contents (s.makeEntityPath e CInt.zero) d, by
          rw [serve_retrieve_eq, hname, leads_file hdir.dir]
          rfl⟩
      obtain ⟨d', hserve, -⟩ := (hoperable _ hlisted).updated []
      rcases hdir.update CInt.zero [] with
        ⟨-, -, hnot, -⟩ | ⟨hfalse, -⟩
      · exact hnot hnul
      · rw [hserve] at hfalse
        cases hfalse
    refine ⟨hcanonical, hnul, fun id hplace => ?_⟩
    have hlisted := (hfound id).mpr
      ((hdir.retrieved_iff hnul).mpr (by rw [hplace]; rfl))
    obtain ⟨content, hentry, -⟩ := (hoperable id hlisted).fetched
    rw [hplace] at hentry
    cases hentry
  · intro hex
    obtain ⟨hcanonical, hnul, hnodir⟩ := hex
    have hlists := listsFiles_iff.mpr hcanonical
    refine ⟨hlists, fun id => ?_, fun id hid => ?_⟩
    · rw [hdir.retrieved_iff hnul]
      refine (hlists.2 id).trans ?_
      rw [Disk.isFile_iff]
      cases hentry : d.entry (s.fileLoc fs e id) with
      | none => simp
      | some x =>
          cases x with
          | file content => simp
          | dir => exact absurd hentry (hnodir id)
    · exact hdir.operable hnul ((hlists.2 id).mp hid)

/-- A disk with one file for the resource `a`, under any name. -/
def oneFile (name : Str) : Disk :=
  (dataDisk.mkdir ["data".toList, "a".toList]).put
    ["data".toList, "a".toList, name] (.file "x".toList)

/-- Before the file is put there, its place is free. -/
theorem oneFile_free (name : Str) :
    (dataDisk.mkdir ["data".toList, "a".toList]).entry
      ["data".toList, "a".toList, name] = none := by
  rw [Disk.entry_mkdir, if_neg (by simp), Option.or_none]
  exact dataDisk_isEmpty.empty ["a".toList, name] (by simp)

theorem oneFile_hasDirectory (name : Str) :
    dataStorage.HasDirectory plainSystem "a".toList (oneFile name) := by
  have hmade : plainSystem.IsDirectory (dataStorage.makeEntityDir "a".toList)
      (dataDisk.mkdir ["data".toList, "a".toList]) :=
    FileSystem.isDirectory_iff.mpr ⟨by decide, by decide⟩
  have hkept : Disk.DirsKept (dataDisk.mkdir ["data".toList, "a".toList])
      (oneFile name) := by
    apply Disk.dirsKept_put
    rw [oneFile_free]
    simp
  exact ⟨hmade.mono hkept, hkept _ (by decide)⟩

theorem oneFile_isFile (name name' : Str) :
    (oneFile name).isFile
        (dataStorage.dirLoc plainSystem "a".toList ++ [name'])
      ↔ name' = name := by
  have hdir : dataStorage.dirLoc plainSystem "a".toList
      = ["data".toList, "a".toList] := by
    decide
  rw [hdir]
  show (oneFile name).isFile ["data".toList, "a".toList, name'] ↔ _
  unfold Disk.isFile oneFile
  rw [Disk.entry_put (by simp), oneFile_free]
  by_cases hname : name' = name
  · simp [hname, Entry.isFile]
  · simp [hname]

theorem list_agrees_numeral :
    ∃ ids, dataStorage.serve plainSystem (.list "a".toList)
        (oneFile "7".toList) = (oneFile "7".toList, some ids)
      ∧ dataStorage.ListsFiles plainSystem "a".toList (oneFile "7".toList)
          ids := by
  obtain ⟨ids, hserve, hlists, -⟩ := list_agrees_iff dataStorage plainSystem
    "a".toList (oneFile "7".toList) (oneFile_hasDirectory "7".toList)
  refine ⟨ids, hserve, hlists.mpr fun name id k hfile hread => ?_⟩
  obtain rfl := (oneFile_isFile "7".toList name).mp hfile
  have hseven : stoi "7".toList = some (CInt.ofInt 7, 1) := by decide
  rw [hseven] at hread
  obtain ⟨rfl, -⟩ := Prod.mk.inj (Option.some.inj hread)
  decide

theorem list_disagrees :
    dataStorage.HasDirectory plainSystem "a".toList (oneFile "12abc".toList)
      ∧ ∀ ids, (dataStorage.serve plainSystem (.list "a".toList)
          (oneFile "12abc".toList)).2 = some ids →
        ¬ dataStorage.ListsFiles plainSystem "a".toList
          (oneFile "12abc".toList) ids := by
  refine ⟨oneFile_hasDirectory "12abc".toList, ?_⟩
  intro ids hserve hex
  obtain ⟨-, hmem⟩ := hex
  have hlisted : (dataStorage.serve plainSystem (.list "a".toList)
      (oneFile "12abc".toList)).2 = some [CInt.ofInt 12] := by
    decide +kernel
  rw [hlisted] at hserve
  obtain rfl := Option.some.inj hserve
  have hfile := (hmem (CInt.ofInt 12)).mp (List.mem_singleton_self _)
  have hname := (oneFile_isFile "12abc".toList (decimalInt 12)).mp hfile
  exact absurd hname (by decide)

end RealEntityStorage

end Creeper
