/-
The real storage does what a storage is for, and so the same as the
simulated one.

`Holds` is how a disk has an entity map in a data directory: a directory
for a resource, and in it a file for each id, named by its numeral and
nothing else. What an operation does to the disk is to make the
directory of a resource, to write a file in it or to remove one
(`Holds.mkdir`, `Holds.put`, `Holds.drop`), and what it reads off a
directory are the ids in use, in some order (`mem_idsOfNames`). So each
operation, run alone, answers from the map the disk holds and leaves the
disk holding the map after (`real_answers`), and two storages that begin
empty return the same along any sequence of calls (`storages_agree`).
-/
import Creeper.Proofs.Crud.Storage

namespace Creeper

open Lib

-- ======================================================== a map on the disk

/-- The path leads to a directory, which has not been removed and has the
map in it. -/
structure Holds (fs : FileSystem) (path : Str) (d : Disk) (m : EntityMap) :
    Prop where
  root_dir : fs.IsDirectory path d
  root_there : d.entry (fs.resolve path) = some .dir
  entity : ∀ e, d.entry (fs.resolve path ++ [e]) = none
    ∨ d.entry (fs.resolve path ++ [e]) = some .dir
  file : ∀ e (id : CInt), d.entry (fs.resolve path ++ [e, decimalInt id.val])
    = (m e id).map .file
  numeral : ∀ e name x, d.entry (fs.resolve path ++ [e, name]) = some x →
    ∃ id : CInt, name = decimalInt id.val
  used : ∀ e id, (m e id).isSome →
    d.entry (fs.resolve path ++ [e]) = some .dir

section Holding

variable {fs : FileSystem} {path : Str} {root : Loc} {d : Disk}
  {m : EntityMap} {e e' name name' : Str} {id : CInt}

/-- Files lie below the directories of the storage. -/
theorem file_ne_dir : root ++ [e, name] ≠ root ++ [e'] := by
  intro heq
  have hlength := congrArg List.length heq
  simp at hlength

theorem file_inj :
    root ++ [e', name'] = root ++ [e, name] ↔ e' = e ∧ name' = name := by
  simp

theorem file_ne_nil : root ++ [e, name] ≠ [] := by simp

theorem dropLast_file : (root ++ [e, name]).dropLast = root ++ [e] := by
  have hsplit : root ++ [e, name] = (root ++ [e]) ++ [name] := by simp
  rw [hsplit, List.dropLast_concat]

/-- An entity's directory is no file. -/
theorem Holds.not_file (h : Holds fs path d m) (e : Str) :
    d.isFile (fs.resolve path ++ [e]) = false := by
  rcases h.entity e with hnone | hdir
  · unfold Disk.isFile
    rw [hnone]
    rfl
  · exact Disk.isFile_of_dir hdir

/-- An id's place is no directory. -/
theorem Holds.not_dir (h : Holds fs path d m) (e : Str) (id : CInt) :
    d.entry (fs.resolve path ++ [e, decimalInt id.val]) ≠ some .dir := by
  rw [h.file e id]
  cases m e id <;> simp

/-- Making the directory of an entity changes nothing in the map. -/
theorem Holds.mkdir (h : Holds fs path d m) (e : Str) :
    Holds fs path (d.mkdir (fs.resolve path ++ [e])) m := by
  have hfile : ∀ e' name,
      (d.mkdir (fs.resolve path ++ [e])).entry (fs.resolve path ++ [e', name])
        = d.entry (fs.resolve path ++ [e', name]) := by
    intro e' name
    rw [Disk.entry_mkdir, if_neg file_ne_dir, Option.or_none]
  have hkept : Disk.DirsKept d (d.mkdir (fs.resolve path ++ [e])) :=
    Disk.dirsKept_mkdirs d [_]
  refine ⟨h.root_dir.mono hkept, hkept _ h.root_there, ?_, ?_, ?_, ?_⟩
  · intro e'
    rw [Disk.entry_mkdir]
    rcases h.entity e' with hnone | hdir
    · rw [hnone]
      split
      · exact Or.inr rfl
      · exact Or.inl rfl
    · rw [hdir]
      exact Or.inr rfl
  · intro e' id
    rw [hfile]
    exact h.file e' id
  · intro e' name x hx
    rw [hfile] at hx
    exact h.numeral e' name x hx
  · intro e' id hused
    exact hkept _ (h.used e' id hused)

/-- Writing a file sets its id. -/
theorem Holds.put (h : Holds fs path d m)
    (hdir : d.entry (fs.resolve path ++ [e]) = some .dir) (id : CInt)
    (data : Str) :
    Holds fs path
      (d.put (fs.resolve path ++ [e, decimalInt id.val]) (.file data))
      (m.set e id data) := by
  have hkept := Disk.dirsKept_put (h.not_dir e id) (.file data)
  refine ⟨h.root_dir.mono hkept, hkept _ h.root_there, ?_, ?_, ?_, ?_⟩
  · intro e'
    rw [Disk.entry_put_ne file_ne_nil file_ne_dir.symm]
    exact h.entity e'
  · intro e' j
    rw [Disk.entry_put file_ne_nil]
    by_cases he : e' = e
    · subst he
      rw [IdMap.set_self]
      by_cases hj : j = id
      · subst hj
        rw [if_pos rfl, upsert_same]
        rfl
      · rw [if_neg fun heq => hj (Subtype.ext
          (decimalInt_injective (file_inj.mp heq).2)), upsert_ne _ hj]
        exact h.file e' j
    · rw [if_neg fun heq => he (file_inj.mp heq).1, IdMap.set_ne he]
      exact h.file e' j
  · intro e' name x hx
    rw [Disk.entry_put file_ne_nil] at hx
    split at hx
    · next heq => exact ⟨id, (file_inj.mp heq).2⟩
    · exact h.numeral e' name x hx
  · intro e' j hused
    rw [Disk.entry_put_ne file_ne_nil file_ne_dir.symm]
    by_cases he : e' = e
    · rw [he]
      exact hdir
    · rw [IdMap.set_ne he] at hused
      exact h.used e' j hused

/-- Removing a file unsets its id. -/
theorem Holds.drop (h : Holds fs path d m) (e : Str) (id : CInt) :
    Holds fs path (d.drop (fs.resolve path ++ [e, decimalInt id.val]))
      (m.unset e id) := by
  have hkept := Disk.dirsKept_drop (h.not_dir e id)
  refine ⟨h.root_dir.mono hkept, hkept _ h.root_there, ?_, ?_, ?_, ?_⟩
  · intro e'
    rw [Disk.entry_drop file_ne_nil, if_neg file_ne_dir.symm]
    exact h.entity e'
  · intro e' j
    rw [Disk.entry_drop file_ne_nil]
    by_cases he : e' = e
    · subst he
      rw [IdMap.unset_self]
      by_cases hj : j = id
      · subst hj
        rw [if_pos rfl]
        simp [erase]
      · rw [if_neg fun heq => hj (Subtype.ext
          (decimalInt_injective (file_inj.mp heq).2)), h.file e' j]
        simp [erase, hj]
    · rw [if_neg fun heq => he (file_inj.mp heq).1, IdMap.unset_ne he]
      exact h.file e' j
  · intro e' name x hx
    rw [Disk.entry_drop file_ne_nil] at hx
    split at hx
    · cases hx
    · exact h.numeral e' name x hx
  · intro e' j hused
    rw [Disk.entry_drop file_ne_nil, if_neg file_ne_dir.symm]
    by_cases he : e' = e
    · subst he
      rw [IdMap.unset_self] at hused
      obtain ⟨x, hx⟩ := Option.isSome_iff_exists.mp hused
      exact h.used e' j (by rw [erase_eq_some hx]; rfl)
    · rw [IdMap.unset_ne he] at hused
      exact h.used e' j hused

/-- An entity's directory holds its files. -/
theorem Holds.mem_children (h : Holds fs path d m) {c : DirEntry} :
    c ∈ d.children (fs.resolve path ++ [e])
      ↔ ∃ id : CInt, c = ⟨decimalInt id.val, true⟩ ∧ (m e id).isSome := by
  have hsplit : ∀ name, (fs.resolve path ++ [e]) ++ [name]
      = fs.resolve path ++ [e, name] := by
    simp
  rw [Disk.mem_children, hsplit]
  constructor
  · intro hchild
    obtain ⟨x, hx, hregular⟩ := hchild
    obtain ⟨id, hid⟩ := h.numeral e c.name x hx
    rw [hid, h.file e id] at hx
    obtain ⟨content, hcontent, rfl⟩ := Option.map_eq_some_iff.mp hx
    refine ⟨id, ?_, by rw [hcontent]; rfl⟩
    obtain ⟨name, regular⟩ := c
    simp only at hid hregular
    rw [hid, hregular]
    rfl
  · intro hid
    obtain ⟨id, rfl, hsome⟩ := hid
    obtain ⟨content, hcontent⟩ := Option.isSome_iff_exists.mp hsome
    refine ⟨.file content, ?_, rfl⟩
    rw [h.file e id, hcontent]
    rfl

/-- The names in an entity's directory, in whatever order they come. -/
theorem Holds.mem_names (h : Holds fs path d m) (name : Str) :
    name ∈ (fs.order (d.children (fs.resolve path ++ [e]))).map DirEntry.name
      ↔ ∃ id ∈ m.ids e, name = decimalInt id.val := by
  rw [((fs.order_perm _).map DirEntry.name).mem_iff, List.mem_map]
  constructor
  · intro hmem
    obtain ⟨c, hc, rfl⟩ := hmem
    obtain ⟨id, rfl, hid⟩ := h.mem_children.mp hc
    exact ⟨id, hid, rfl⟩
  · intro hmem
    obtain ⟨id, hid, rfl⟩ := hmem
    exact ⟨⟨decimalInt id.val, true⟩, h.mem_children.mpr ⟨id, rfl, hid⟩, rfl⟩

/-- An entity whose directory is not there has nothing. -/
theorem Holds.unused (h : Holds fs path d m)
    (hnone : d.entry (fs.resolve path ++ [e]) = none) (id : CInt) :
    m e id = none := by
  cases hm : m e id with
  | none => rfl
  | some content =>
      have hdir := h.used e id (by rw [hm]; rfl)
      rw [hnone] at hdir
      cases hdir

end Holding

-- =============================================================== iterations

section Iterations

open RealEntityStorage

variable {ids : Set CInt} {names : List Str} {entries : List DirEntry}

/-- The ids among names that are the numerals of some ids. -/
theorem mem_idsOfNames
    (hnames : ∀ name, name ∈ names ↔ ∃ id ∈ ids, name = decimalInt id.val)
    (id : CInt) : id ∈ idsOfNames names ↔ id ∈ ids := by
  rw [mem_idsOfNames_iff]
  constructor
  · intro hmem
    obtain ⟨name, hname, k, hread⟩ := hmem
    obtain ⟨id', hid', rfl⟩ := (hnames name).mp hname
    rw [stoi_decimalInt] at hread
    cases hread
    exact hid'
  · intro hid
    exact ⟨decimalInt id.val, (hnames _).mpr ⟨id, hid, rfl⟩, _,
      stoi_decimalInt id⟩

/-- Different numerals are different ids. -/
theorem nodup_idsOfNames (hnodup : names.Nodup)
    (hnames : ∀ name ∈ names, ∃ id : CInt, name = decimalInt id.val) :
    (idsOfNames names).Nodup := by
  rw [nodup_idsOfNames_iff hnodup]
  intro name hname name' hname' id k k' hk hk'
  obtain ⟨j, rfl⟩ := hnames name hname
  obtain ⟨j', rfl⟩ := hnames name' hname'
  rw [stoi_decimalInt] at hk hk'
  cases hk
  cases hk'
  rfl

end Iterations

-- =========================================================== the operations

/-- A resource the system can have a directory for: one ordinary path
component, short enough. -/
structure Usable (fs : FileSystem) (s : RealEntityStorage) (e : Str) :
    Prop where
  root : nul ∉ s.root
  ordinary : OrdinaryName e
  length : e.length ≤ fs.nameMax

namespace RealEntityStorage

variable {fs : FileSystem} {s : RealEntityStorage} {e data : Str}
  {d : Disk} {m : EntityMap} {id : CInt}

/-- The directory of a resource, when it is there. -/
theorem entityDir_isDirectory (hu : Usable fs s e) (h : Holds fs s.root d m)
    (hdir : d.entry (fs.resolve s.root ++ [e]) = some .dir) :
    fs.IsDirectory (s.makeEntityDir e) d := by
  refine ⟨h.root_dir.leads_pathAppend hu.root hu.ordinary hu.length, ?_⟩
  exact (FileSystem.found_pathAppend hu.root hu.ordinary).trans hdir

/-- The names of the files are never too long. -/
theorem leads_makeEntityPath (hnul : nul ∉ s.makeEntityDir e)
    (hdir : fs.IsDirectory (s.makeEntityDir e) d) (id : CInt) :
    fs.leads (s.makeEntityPath e id) d = .ok () := by
  have hnumeral := length_decimalInt_le id
  have hmax := fs.nameMax_ge
  exact hdir.leads_pathAppend hnul (ordinaryName_decimalInt id.val)
    (by omega)

theorem endsWithName_makeEntityPath (hnul : nul ∉ s.makeEntityDir e)
    (id : CInt) : endsWithName (s.makeEntityPath e id) :=
  FileSystem.endsWithName_pathAppend hnul (ordinaryName_decimalInt id.val)

/-- What is found under an id is what is in its place. -/
theorem found_makeEntityPath (hu : Usable fs s e) (id : CInt) :
    fs.found (s.makeEntityPath e id) d
      = d.entry (fs.resolve s.root ++ [e, decimalInt id.val]) := by
  unfold FileSystem.found
  rw [if_pos (endsWithName_makeEntityPath
      (nul_not_mem_pathAppend hu.root hu.ordinary.not_nul) id),
    resolve_makeEntityPath fs hu.root hu.ordinary]

/-- The directory of a resource is made, and the map is what it was. -/
theorem make_entityDir (hu : Usable fs s e) (h : Holds fs s.root d m) :
    ∃ d₁, fs.serve (.createDirectories (s.makeEntityDir e)) d
        = (d₁, some ())
      ∧ Holds fs s.root d₁ m
      ∧ d₁.entry (fs.resolve s.root ++ [e]) = some .dir := by
  have hmakeable : fs.Makeable (s.makeEntityDir e) d :=
    h.root_dir.makeable_pathAppend h.root_there hu.root hu.ordinary
      hu.length (h.not_file e)
  have hone : d.mkdirs (fs.ways (s.makeEntityDir e))
      = d.mkdir (fs.resolve s.root ++ [e]) :=
    h.root_dir.mkdirs_pathAppend hu.root hu.ordinary
  rcases fs.serve_createDirectories (s.makeEntityDir e) d with
    ⟨-, hmade⟩ | ⟨hnot, -⟩
  · rw [hone] at hmade
    have hdir : (d.mkdirs [fs.resolve s.root ++ [e]]).entry
        (fs.resolve s.root ++ [e]) = some .dir :=
      Disk.entry_mkdirs_mem (h.not_file e) (List.mem_singleton_self _)
    exact ⟨_, hmade, h.mkdir e, hdir⟩
  · exact absurd hmakeable hnot

/-- A file of an entity opened, emptied and written. -/
theorem eval_writeFile (hu : Usable fs s e) (h : Holds fs s.root d m)
    (hdir : d.entry (fs.resolve s.root ++ [e]) = some .dir) (id : CInt)
    (data : Str) {α : Type} (n : Nat) (written failed : α) :
    ∃ d', Prog.eval (fun _ => fs.serve) n
          (.call (.openTruncate (s.makeEntityPath e id)) fun opened =>
            if opened then
              .call (.write (s.makeEntityPath e id) data) fun _ =>
                .ret written
            else .ret failed) d = (d', written)
      ∧ Holds fs s.root d' (m.set e id data) := by
  have hloc := resolve_makeEntityPath fs hu.root hu.ordinary id
  have hnul := nul_not_mem_pathAppend hu.root hu.ordinary.not_nul
  have hleads := leads_makeEntityPath hnul
    (entityDir_isDirectory hu h hdir) id
  have hnotdir := h.not_dir e id
  have hempty := h.put hdir id []
  have hdir' := Disk.dirsKept_put hnotdir (.file []) _ hdir
  have hopened : fs.serve (.openTruncate (s.makeEntityPath e id)) d
      = (d.put (fs.resolve s.root ++ [e, decimalInt id.val]) (.file []),
        true) := by
    rw [FileSystem.serve_openTruncate hleads
      (endsWithName_makeEntityPath hnul id), hloc]
    apply FileSystem.openTruncate_of_dir hnotdir
    rw [dropLast_file]
    exact hdir
  have hne : fs.resolve s.root ++ [e, decimalInt id.val] ≠ [] :=
    file_ne_nil
  have hnew := Disk.entry_put_self (d := d) (e := .file []) hne
  have hwritten := FileSystem.write_of_empty hnew data
  have hagain := hempty.put hdir' id data
  rw [IdMap.set_set] at hagain
  refine ⟨_, ?_, hagain⟩
  rw [Prog.eval_call, hopened]
  simp only [if_true]
  rw [Prog.eval_call, Prog.eval_ret]
  unfold FileSystem.serve
  simp only
  rw [hloc, hwritten]

/-- `create`, alone. -/
theorem create_answers (hu : Usable fs s e) (h : Holds fs s.root d m)
    (data : Str) :
    ∃ d' r m', s.serve fs (.create e data) d = (d', some r)
      ∧ Answers m (.create e data) r m' ∧ Holds fs s.root d' m' := by
  have hdirloc := resolve_makeEntityDir fs hu.root hu.ordinary
  obtain ⟨d₁, hmade, h₁, hdir₁⟩ := make_entityDir hu h
  generalize hentries :
    fs.order (d₁.children (fs.resolve s.root ++ [e])) = entries
  have hscanned : fs.serve (.directoryIterator (s.makeEntityDir e)) d₁
      = (d₁, some entries) := by
    rw [FileSystem.serve_directoryIterator
      (entityDir_isDirectory hu h₁ hdir₁), hdirloc, hentries]
  have hrun : s.serve fs (.create e data) d
      = Prog.eval (fun _ => fs.serve) 2
          (if (getNextAvailableId entries).val < 0 then .ret (some none)
            else s.createOpen e data (getNextAvailableId entries)) d₁ := by
    unfold serve perform create
    rw [Prog.eval_call, hmade]
    unfold createScan
    simp only
    rw [Prog.eval_call, hscanned]
  have hnames : ∀ name, name ∈ entries.map DirEntry.name
      ↔ ∃ id ∈ m.ids e, name = decimalInt id.val := by
    rw [← hentries]
    exact h₁.mem_names
  have hlast := isLast_maxId (m := m) e (mem_idsOfNames hnames)
  rw [hrun]
  rcases nextAvailableId_cases (idsOfNames (entries.map DirEntry.name)) with
    ⟨hmax, hfull⟩ | hnext
  · have hid : getNextAvailableId entries = .ofInt (-1) := hfull
    rw [hid, if_pos (by decide)]
    exact ⟨d₁, none, m, rfl, .full hlast hmax, h₁⟩
  · have hid : (getNextAvailableId entries).val
        = (maxId (idsOfNames (entries.map DirEntry.name))).val + 1 := hnext
    generalize getNextAvailableId entries = id at hid
    have hnonneg := maxId_nonneg (idsOfNames (entries.map DirEntry.name))
    rw [if_neg (by omega)]
    unfold createOpen createWrite
    obtain ⟨d', hwrite, h'⟩ :=
      eval_writeFile hu h₁ hdir₁ id data 2 (some (some id)) (some none)
    exact ⟨d', some id, _, hwrite, .created hlast hid, h'⟩

/-- `update`, alone. -/
theorem update_answers (hu : Usable fs s e) (h : Holds fs s.root d m)
    (id : CInt) (data : Str) :
    ∃ d' r m', s.serve fs (.update e id data) d = (d', some r)
      ∧ Answers m (.update e id data) r m' ∧ Holds fs s.root d' m' := by
  obtain ⟨d₁, hmade, h₁, hdir₁⟩ := make_entityDir hu h
  obtain ⟨d', hwrite, h'⟩ :=
    eval_writeFile hu h₁ hdir₁ id data 1 (some true) (some false)
  refine ⟨d', true, _, ?_, .updated, h'⟩
  unfold serve perform update
  rw [Prog.eval_call, hmade]
  exact hwrite

/-- The path of an id leads to its place, or there is no directory and
nothing in it. -/
theorem leads_cases (hu : Usable fs s e) (h : Holds fs s.root d m)
    (id : CInt) :
    fs.leads (s.makeEntityPath e id) d = .ok ()
      ∨ (fs.leads (s.makeEntityPath e id) d = .error .noEntry
        ∧ m e id = none) := by
  rcases h.entity e with hnone | hdir
  · exact Or.inr ⟨h.root_dir.leads_missing hu.root hu.ordinary hu.length
      hnone (ordinaryName_decimalInt id.val), h.unused hnone id⟩
  · exact Or.inl (leads_makeEntityPath
      (nul_not_mem_pathAppend hu.root hu.ordinary.not_nul)
      (entityDir_isDirectory hu h hdir) id)

/-- `retrieve`, alone. -/
theorem retrieve_answers (hu : Usable fs s e) (h : Holds fs s.root d m)
    (id : CInt) : s.serve fs (.retrieve e id) d = (d, some (m e id)) := by
  have hnul := nul_not_mem_pathAppend hu.root hu.ordinary.not_nul
  have hloc := resolve_makeEntityPath fs hu.root hu.ordinary id
  have hopened : fs.serve (.openRead (s.makeEntityPath e id)) d
      = (d, (m e id).isSome) := by
    rcases leads_cases hu h id with hleads | ⟨hleads, hunused⟩
    · rw [FileSystem.serve_openRead hleads, found_makeEntityPath hu,
        h.file e id, Option.isSome_map]
    · rw [FileSystem.serve_openRead_error hleads, hunused]
      rfl
  unfold serve perform retrieve
  rw [Prog.eval_call, hopened]
  cases hm : m e id with
  | none => rfl
  | some content =>
      have hread : fs.serve (.read (s.makeEntityPath e id)) d
          = (d, content) := by
        unfold FileSystem.serve FileSystem.contents Disk.content
        simp only
        rw [if_pos (endsWithName_makeEntityPath hnul id), hloc, h.file e id,
          hm]
        rfl
      simp only [Option.isSome_some, if_true]
      rw [Prog.eval_call, hread]
      rfl

/-- `remove`, alone. -/
theorem remove_answers (hu : Usable fs s e) (h : Holds fs s.root d m)
    (id : CInt) :
    ∃ d' r m', s.serve fs (.remove e id) d = (d', some r)
      ∧ Answers m (.remove e id) r m' ∧ Holds fs s.root d' m' := by
  have hloc := resolve_makeEntityPath fs hu.root hu.ordinary id
  have hnul := nul_not_mem_pathAppend hu.root hu.ordinary.not_nul
  have hans : Answers m (.remove e id) _ _ := .removed
  have hentry := h.file e id
  unfold serve perform remove
  rw [Prog.eval_call, Prog.eval_ret]
  rcases leads_cases hu h id with hleads | ⟨hleads, hunused⟩
  · rw [FileSystem.serve_remove hleads
      (endsWithName_makeEntityPath hnul id), hloc]
    unfold FileSystem.remove
    cases hm : m e id with
    | none =>
        rw [hm] at hentry hans
        rw [IdMap.unset_of_none hm] at hans
        rw [hentry]
        exact ⟨d, false, m, rfl, hans, h⟩
    | some content =>
        rw [hm] at hentry hans
        rw [hentry]
        exact ⟨_, true, _, rfl, hans, h.drop e id⟩
  · rw [hunused, IdMap.unset_of_none hunused] at hans
    unfold FileSystem.serve
    simp only
    rw [hleads]
    exact ⟨d, false, m, rfl, hans, h⟩

/-- `list`, alone. -/
theorem list_answers (hu : Usable fs s e) (h : Holds fs s.root d m) :
    ∃ ids, s.serve fs (.list e) d = (d, some ids)
      ∧ Answers m (.list e) ids m := by
  have hdirloc := resolve_makeEntityDir fs hu.root hu.ordinary
  have hleads : fs.leads (s.makeEntityDir e) d = .ok () :=
    h.root_dir.leads_pathAppend hu.root hu.ordinary hu.length
  have hexists := FileSystem.serve_pathExists hleads
  have hisDir := FileSystem.serve_isDirectory hleads
  have hfound : fs.found (s.makeEntityDir e) d
      = d.entry (fs.resolve s.root ++ [e]) :=
    FileSystem.found_pathAppend hu.root hu.ordinary
  rw [hfound] at hexists hisDir
  unfold serve perform list
  rw [Prog.eval_call, hexists]
  rcases h.entity e with hnone | hdir
  · rw [hnone]
    refine ⟨[], rfl, .listed List.nodup_nil fun id => ?_⟩
    rw [h.unused hnone id]
    simp
  · rw [hdir]
    simp only [Option.isSome_some]
    rw [Prog.eval_call, hisDir, hdir, decide_eq_true rfl]
    unfold listScan
    simp only
    rw [Prog.eval_call, FileSystem.serve_directoryIterator
      (entityDir_isDirectory hu h hdir), hdirloc]
    refine ⟨_, rfl, ?_⟩
    -- every entry of the directory is a file
    have hregular : (fs.order (d.children (fs.resolve s.root ++ [e]))).filter
        DirEntry.regular
        = fs.order (d.children (fs.resolve s.root ++ [e])) := by
      rw [List.filter_eq_self]
      intro c hc
      obtain ⟨id, rfl, -⟩ :=
        h.mem_children.mp ((fs.order_perm _).mem_iff.mp hc)
      rfl
    have hnames := h.mem_names (e := e)
    have hnodup : ((fs.order (d.children (fs.resolve s.root ++ [e]))).map
        DirEntry.name).Nodup :=
      ((fs.order_perm _).map DirEntry.name).nodup_iff.mpr
        (Disk.children_nodup d (fs.resolve s.root ++ [e]))
    unfold listedIds
    rw [hregular]
    refine .listed (nodup_idsOfNames hnodup fun name hname => ?_)
      (mem_idsOfNames hnames)
    obtain ⟨id, -, hid⟩ := (hnames name).mp hname
    exact ⟨id, hid⟩

/-- Every operation, run alone on a disk that holds a map, answers from
the map and leaves the disk with the map after. -/
theorem real_answers {c : StoreCall} (hu : Usable fs s c.resource)
    (h : Holds fs s.root d m) :
    ∃ d' r m', s.serve fs c d = (d', some r) ∧ Answers m c r m'
      ∧ Holds fs s.root d' m' := by
  cases c with
  | create e data => exact create_answers hu h data
  | retrieve e id => exact ⟨d, _, m, retrieve_answers hu h id, .retrieved, h⟩
  | update e id data => exact update_answers hu h id data
  | remove e id => exact remove_answers hu h id
  | list e =>
      obtain ⟨ids, hserve, hans⟩ := list_answers hu h
      exact ⟨d, ids, m, hserve, hans, h⟩

end RealEntityStorage

-- ============================================================= side by side

/-- The path leads to a directory, which has not been removed and has
nothing in it. -/
structure IsEmptyDirectory (fs : FileSystem) (path : Str) (d : Disk) :
    Prop where
  not_nul : nul ∉ path
  dir : fs.IsDirectory path d
  there : d.entry (fs.resolve path) = some .dir
  empty : ∀ rest, rest ≠ [] → d.entry (fs.resolve path ++ rest) = none

/-- An empty directory holds the empty map. -/
theorem IsEmptyDirectory.holds {fs : FileSystem} {path : Str} {d : Disk}
    (h : IsEmptyDirectory fs path d) :
    Holds fs path d IdMap.empty where
  root_dir := h.dir
  root_there := h.there
  entity := fun e => Or.inl (h.empty [e] (List.cons_ne_nil _ _))
  file := fun e id => h.empty [e, _] (List.cons_ne_nil _ _)
  numeral := by
    intro e name x hx
    rw [h.empty [e, name] (List.cons_ne_nil _ _)] at hx
    cases hx
  used := fun e id hused => by cases hused

/-- Along the calls, the real storage returns something every time, and
the same as the simulated one. -/
def AgreeAlong (s : RealEntityStorage) (fs : FileSystem) :
    List StoreCall → SimEntityStorage → Disk → Prop
  | [], _, _ => True
  | c :: calls, storage, d =>
      (∃ r, (s.serve fs c d).2 = some r
        ∧ c.Agree (SimEntityStorage.serve c storage).2 r)
      ∧ AgreeAlong s fs calls (SimEntityStorage.serve c storage).1
          (s.serve fs c d).1

/-- Storages with one map agree along any calls. -/
theorem agreeAlong_of_holds {s : RealEntityStorage} {fs : FileSystem}
    {calls : List StoreCall} (hu : ∀ c ∈ calls, Usable fs s c.resource)
    {storage : SimEntityStorage} {d : Disk}
    (h : Holds fs s.root d storage.retrieve) :
    AgreeAlong s fs calls storage d := by
  induction calls generalizing storage d with
  | nil => trivial
  | cons c calls ih =>
      obtain ⟨d', r, m', hserve, hans, h'⟩ :=
        RealEntityStorage.real_answers (hu c (List.mem_cons_self ..)) h
      obtain ⟨hagree, rfl⟩ :=
        (SimEntityStorage.sim_answers storage c).unique hans
      unfold AgreeAlong
      rw [hserve]
      exact ⟨⟨r, rfl, hagree⟩,
        ih (fun c hc => hu c (List.mem_cons_of_mem _ hc)) h'⟩

/-- The two storages agree. From an empty simulated storage and a real
one on an empty directory, along any sequence of calls on resources that
are one ordinary path component within the length of a name, every call
returns the same in both, a listing up to its order. -/
theorem storages_agree (s : RealEntityStorage) (fs : FileSystem) {d : Disk}
    (hempty : IsEmptyDirectory fs s.root d) (calls : List StoreCall)
    (hcalls : ∀ c ∈ calls, OrdinaryName c.resource
      ∧ c.resource.length ≤ fs.nameMax) :
    AgreeAlong s fs calls SimEntityStorage.empty d := by
  apply agreeAlong_of_holds
  · intro c hc
    obtain ⟨hordinary, hlength⟩ := hcalls c hc
    exact ⟨hempty.not_nul, hordinary, hlength⟩
  · exact hempty.holds

/-- A disk with `/data` and nothing else. -/
def dataDisk : Disk := Disk.empty.mkdir ["data".toList]

theorem dataDisk_isEmpty :
    IsEmptyDirectory plainSystem dataStorage.root dataDisk where
  not_nul := by decide
  dir := FileSystem.isDirectory_iff.mpr ⟨by decide, by decide⟩
  there := by decide
  empty := by
    intro rest hrest
    have hne : plainSystem.resolve dataStorage.root ++ rest
        ≠ ["data".toList] := by
      intro heq
      have hroot : plainSystem.resolve dataStorage.root = ["data".toList] :=
        rfl
      rw [hroot] at heq
      exact hrest (List.append_right_eq_self.mp heq)
    unfold dataDisk
    rw [Disk.entry_mkdir, if_neg hne, Option.or_none]
    exact Disk.entry_empty (by simp [hrest])

theorem storages_agree_a :
    AgreeAlong dataStorage plainSystem
      [.update "a".toList (.ofInt 7) "x".toList, .create "a".toList "y".toList,
        .remove "a".toList (.ofInt 7), .list "a".toList]
      SimEntityStorage.empty dataDisk :=
  storages_agree dataStorage plainSystem dataDisk_isEmpty _ (by decide)

end Creeper
