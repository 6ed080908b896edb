/-
Concurrent creates on one resource: each call on the file system is
atomic, and what lies between two calls of a create is up to the
schedule.

# The control points

`CreateAt` lists the programs a create can be at and `CreateMove` the
moves between them; `step_create` says that a step of the interleaved
system is such a move of one create.

# Collisions

A create reads its id off the directory and opens the file of that id in
two calls, and the open takes a file that is there as well as one that
is not. `Reopens` is the step that goes wrong: a create opens a file
that is there. `creates_apart` is exact over every schedule: when
all creates have returned, their ids are distinct and each file has the
data of its create, if and only if no step of the run reopens. One
direction is an invariant (`Apart`); the other needs `Racing`: a file
that is there when a create is about to open it was opened by another
create, because the id was free when the directory was read and only a
create can have made the file since.
-/
import Creeper.Proofs.Crud.Directory

namespace Creeper

open Lib

variable {ι : Type} [DecidableEq ι]

/-- Creates in progress on one disk. -/
abbrev Creates (ι : Type) :=
  Conf ι DiskCall DiskCall.Reply (Option (Option CInt)) Disk

/-- The next call opens a file for writing that is there. -/
def opensFile {α : Type} (fs : FileSystem) (d : Disk) : DiskProg α → Bool
  | .call (.openTruncate path) _ =>
      fs.leads path d = .ok () ∧ endsWithName path
        ∧ d.isFile (fs.resolve path)
  | _ => false

/-- A create is about to open a file that is there. -/
def Reopens (fs : FileSystem) (cf : Creates ι) (i : ι) : Prop :=
  opensFile fs cf.shared (cf.thread i)

instance (fs : FileSystem) (cf : Creates ι) (i : ι) :
    Decidable (Reopens fs cf i) :=
  inferInstanceAs (Decidable (_ = true))

omit [DecidableEq ι] in
theorem reopens_iff {fs : FileSystem} {cf : Creates ι} {i : ι} :
    Reopens fs cf i
      ↔ ∃ path k, cf.thread i = .call (.openTruncate path) k
        ∧ fs.leads path cf.shared = .ok () ∧ endsWithName path
        ∧ cf.shared.isFile (fs.resolve path) := by
  unfold Reopens opensFile
  constructor
  · intro h
    split at h
    · next path k hcall =>
      obtain ⟨hleads, hname, hfile⟩ := of_decide_eq_true h
      exact ⟨path, k, hcall, hleads, hname, hfile⟩
    · cases h
  · intro h
    obtain ⟨path, k, hcall, hleads, hname, hfile⟩ := h
    rw [hcall]
    exact decide_eq_true ⟨hleads, hname, hfile⟩

namespace RealEntityStorage

variable {s : RealEntityStorage} {fs : FileSystem} {resource data : Str}
  {content : ι → Str} {d d' : Disk} {cf cf' : Creates ι} {i j : ι}
  {p p' : DiskProg (Option CInt)} {id id' : CInt} {l : Loc} {x : Str}

variable (s resource) in
/-- All creates at their beginning. -/
def creating (content : ι → Str) (d : Disk) : Creates ι :=
  { shared := d, thread := fun i => s.create resource (content i) }

-- ======================================================== control points

variable (s resource data) in
/-- Where a create can be. -/
inductive CreateAt : DiskProg (Option CInt) → Prop
  | make : CreateAt (s.create resource data)
  | scan : CreateAt (s.createScan resource data)
  | opening (id : CInt) : CreateAt (s.createOpen resource data id)
  | writing (id : CInt) : CreateAt (s.createWrite resource data id)
  | returned (r : Option (Option CInt)) : CreateAt (.ret r)

variable (s resource data) in
/-- The create has opened no file yet. -/
inductive Early : DiskProg (Option CInt) → Prop
  | make : Early (s.create resource data)
  | scan : Early (s.createScan resource data)
  | opening (id : CInt) : Early (s.createOpen resource data id)

variable (s fs resource data) in
/-- What one call of a create does: the disk and the create before it,
and after it. A call that fails may have made directories. -/
inductive CreateMove (d : Disk) :
    DiskProg (Option CInt) → Disk → DiskProg (Option CInt) → Prop
  | made : CreateMove d (s.create resource data)
        (d.mkdirs (fs.ways (s.makeEntityDir resource)))
        (s.createScan resource data)
  | scanned {id : CInt}
      (hdir : fs.IsDirectory (s.makeEntityDir resource) d)
      (hid : id = getNextAvailableId
        (fs.order (d.children (fs.resolve (s.makeEntityDir resource)))))
      (hvalid : 0 ≤ id.val) :
      CreateMove d (s.createScan resource data) d
        (s.createOpen resource data id)
  | opened {id : CInt}
      (hleads : fs.leads (s.makeEntityPath resource id) d = .ok ())
      (hname : endsWithName (s.makeEntityPath resource id))
      (hentry : d.entry (fs.resolve (s.makeEntityPath resource id))
        ≠ some .dir) :
      CreateMove d (s.createOpen resource data id)
        (d.put (fs.resolve (s.makeEntityPath resource id)) (.file []))
        (s.createWrite resource data id)
  | wrote {id : CInt} :
      CreateMove d (s.createWrite resource data id)
        (FileSystem.write (fs.resolve (s.makeEntityPath resource id)) data d)
        (.ret (some (some id)))
  | failed {p : DiskProg (Option CInt)} {r : Option (Option CInt)}
      (made : List Loc) (hp : s.Early resource data p)
      (hr : ∀ id, r ≠ some (some id)) :
      CreateMove d p (d.mkdirs made) (.ret r)

section Moves

variable {c : DiskCall} {k : c.Reply → DiskProg (Option CInt)}

/-- The directory is made. -/
theorem move_make (hp : s.create resource data = .call c k) :
    s.CreateMove fs resource data d (s.create resource data)
      (fs.serve c d).1 (k (fs.serve c d).2) := by
  unfold create at hp
  cases hp
  rcases fs.serve_createDirectories (s.makeEntityDir resource) d with
    ⟨-, hmade⟩ | ⟨-, made, -, hmade⟩
  · rw [hmade]
    exact .made
  · rw [hmade]
    exact .failed made .make (by simp)

/-- It is iterated. -/
theorem move_scan (hp : s.createScan resource data = .call c k) :
    s.CreateMove fs resource data d (s.createScan resource data)
      (fs.serve c d).1 (k (fs.serve c d).2) := by
  have hfail : ∀ r : Option (Option CInt), (∀ id, r ≠ some (some id)) →
      s.CreateMove fs resource data d (s.createScan resource data) d
        (.ret r) :=
    fun r hr => .failed [] .scan hr
  unfold createScan at hp
  cases hp
  by_cases hdir : fs.IsDirectory (s.makeEntityDir resource) d
  · rw [FileSystem.serve_directoryIterator hdir]
    simp only
    split
    · exact hfail (some none) (by simp)
    · next hneg => exact .scanned hdir rfl (by omega)
  · rw [FileSystem.serve_directoryIterator_none hdir]
    exact hfail none (by simp)

/-- The file is opened. -/
theorem move_opening {id : CInt}
    (hp : s.createOpen resource data id = .call c k) :
    s.CreateMove fs resource data d (s.createOpen resource data id)
      (fs.serve c d).1 (k (fs.serve c d).2) := by
  have hfail : s.CreateMove fs resource data d
      (s.createOpen resource data id) d (.ret (some none)) :=
    .failed [] (.opening id) (by simp)
  unfold createOpen at hp
  cases hp
  rcases fs.serve_openTruncate_cases (s.makeEntityPath resource id) d with
    hopen | ⟨hleads, hname, hentry, hopen⟩
  · rw [hopen]
    exact hfail
  · rw [hopen]
    exact .opened hleads hname hentry

/-- A call made at a control point is a move. -/
theorem CreateAt.move (hat : s.CreateAt resource data p)
    (hp : p = .call c k) :
    s.CreateMove fs resource data d p (fs.serve c d).1
      (k (fs.serve c d).2) := by
  cases hat with
  | make => exact move_make hp
  | scan => exact move_scan hp
  | opening id => exact move_opening hp
  | writing id =>
      unfold createWrite at hp
      cases hp
      exact .wrote
  | returned r => cases hp

end Moves

/-- A move leads to a control point. -/
theorem CreateMove.at_after
    (hm : s.CreateMove fs resource data d p d' p') :
    s.CreateAt resource data p' := by
  cases hm with
  | made => exact .scan
  | @scanned id => exact .opening id
  | @opened id => exact .writing id
  | wrote => exact .returned _
  | failed => exact .returned _

-- ============================================================ what is taken

/-- No file is opened in a directory whose path has a NUL: the system
never gets to the numeral. -/
theorem not_nul_of_opened
    (hdir : fs.IsDirectory (s.makeEntityDir resource) d)
    (hname : endsWithName (s.makeEntityPath resource id))
    (hentry : d.entry (fs.resolve (s.makeEntityPath resource id))
      ≠ some .dir) : nul ∉ s.makeEntityDir resource := by
  intro hnul
  have hfound : fs.found (s.makeEntityPath resource id) d = some .dir :=
    (FileSystem.found_pathAppend_nul hnul
      (ordinaryName_decimalInt id.val).head?_ne).trans hdir.found
  unfold FileSystem.found at hfound
  rw [if_pos hname] at hfound
  exact hentry hfound

/-- The file of an id is in the directory. -/
theorem resolve_path (fs : FileSystem) (hnul : nul ∉ s.makeEntityDir resource)
    (id : CInt) :
    fs.resolve (s.makeEntityPath resource id)
      = fs.resolve (s.makeEntityDir resource) ++ [decimalInt id.val] :=
  FileSystem.resolve_ordinary hnul (ordinaryName_decimalInt id.val)

/-- Different ids have different files. -/
theorem path_inj (hnul : nul ∉ s.makeEntityDir resource)
    (heq : fs.resolve (s.makeEntityPath resource id')
      = fs.resolve (s.makeEntityPath resource id)) : id' = id := by
  rw [resolve_path fs hnul, resolve_path fs hnul] at heq
  have hnumeral : decimalInt id'.val = decimalInt id.val := by
    simpa using heq
  exact Subtype.ext (decimalInt_injective hnumeral)

/-- The id read off a directory has no file there. -/
theorem next_unused (hdir : fs.IsDirectory (s.makeEntityDir resource) d)
    (hid : id = getNextAvailableId
      (fs.order (d.children (fs.resolve (s.makeEntityDir resource)))))
    (hvalid : 0 ≤ id.val)
    (hname : endsWithName (s.makeEntityPath resource id)) :
    d.isFile (fs.resolve (s.makeEntityPath resource id)) = false := by
  by_contra hnot
  obtain ⟨x, hx⟩ := Disk.isFile_iff.mp ((Bool.not_eq_false _).mp hnot)
  have hnul := not_nul_of_opened hdir hname (by rw [hx]; simp)
  rw [resolve_path fs hnul] at hx
  have hchild : (⟨decimalInt id.val, true⟩ : DirEntry)
      ∈ d.children (fs.resolve (s.makeEntityDir resource)) :=
    Disk.mem_children.mpr ⟨_, hx, rfl⟩
  have hmem : id ∈ idsOfNames ((fs.order (d.children
      (fs.resolve (s.makeEntityDir resource)))).map DirEntry.name) :=
    mem_idsOfNames_iff.mpr ⟨decimalInt id.val, List.mem_map.mpr
      ⟨_, (fs.order_perm _).mem_iff.mpr hchild, rfl⟩, _,
      stoi_decimalInt id⟩
  have hle := (isGreatest_maxId _).2 (Set.mem_insert_of_mem _ hmem)
  unfold getNextAvailableId at hid
  rcases nextAvailableId_cases (idsOfNames ((fs.order (d.children
      (fs.resolve (s.makeEntityDir resource)))).map DirEntry.name)) with
    ⟨-, hfull⟩ | hnext
  · rw [hid, hfull] at hvalid
    exact absurd hvalid (by decide)
  · rw [← hid] at hnext
    have hval : id.val ≤ _ := hle
    omega

variable (s resource data) in
/-- The create has opened the file of the id, and what it has put
there. -/
inductive Took (p : DiskProg (Option CInt)) (id : CInt) : Str → Prop
  | opened (hp : p = s.createWrite resource data id) : Took p id []
  | wrote (hp : p = .ret (some (some id))) : Took p id data

/-- A create that has opened no file has taken none. -/
theorem Early.not_took (hp : s.Early resource data p) :
    ¬ s.Took resource data p id x := by
  intro htook
  cases hp <;> rcases htook with hp | hp
  · unfold create createWrite at hp
    cases hp
  · cases hp
  · unfold createScan createWrite at hp
    cases hp
  · cases hp
  · unfold createOpen createWrite at hp
    cases hp
  · cases hp

/-- A create writes the file of one id. -/
theorem createWrite_inj (heq : s.createWrite resource data id
    = s.createWrite resource data id') : id = id' := by
  unfold createWrite at heq
  have hret := congrFun (eq_of_heq (Prog.call.inj heq).2) ()
  cases hret
  rfl

/-- A create opens the file of one id. -/
theorem createOpen_inj (heq : s.createOpen resource data id
    = s.createOpen resource data id') : id = id' := by
  unfold createOpen at heq
  exact createWrite_inj (congrFun (eq_of_heq (Prog.call.inj heq).2) true)

/-- What is taken stays taken. -/
theorem CreateMove.took (hm : s.CreateMove fs resource data d p d' p')
    (h : s.Took resource data p id x) :
    ∃ x', s.Took resource data p' id x' := by
  cases hm with
  | made => exact absurd h Early.make.not_took
  | scanned => exact absurd h Early.scan.not_took
  | opened => exact absurd h (Early.opening _).not_took
  | failed made hp => exact absurd h hp.not_took
  | wrote =>
      rcases h with hp | hp
      · obtain rfl := createWrite_inj hp
        exact ⟨data, .wrote rfl⟩
      · cases hp

/-- No directory goes away. -/
theorem CreateMove.dir_kept (hm : s.CreateMove fs resource data d p d' p')
    (h : d.entry l = some .dir) : d'.entry l = some .dir := by
  cases hm with
  | made => exact Disk.entry_mkdirs_some h _
  | scanned => exact h
  | opened hleads hname hentry => exact Disk.dirsKept_put hentry _ _ h
  | wrote => exact FileSystem.entry_write_dir h _ _
  | failed => exact Disk.entry_mkdirs_some h _

/-- A file that was not there was opened. -/
theorem CreateMove.file_new (hm : s.CreateMove fs resource data d p d' p')
    (h : d'.isFile l) (hnot : d.isFile l = false) :
    ∃ id, p' = s.createWrite resource data id
      ∧ endsWithName (s.makeEntityPath resource id)
      ∧ l = fs.resolve (s.makeEntityPath resource id)
      ∧ d.entry l ≠ some .dir := by
  cases hm with
  | made =>
      rw [Disk.isFile_mkdirs, hnot] at h
      cases h
  | scanned =>
      rw [hnot] at h
      cases h
  | @opened id hleads hname hentry =>
      by_cases hl : l = fs.resolve (s.makeEntityPath resource id)
      · subst hl
        exact ⟨id, rfl, hname, rfl, hentry⟩
      · unfold Disk.isFile at h hnot
        rw [Disk.entry_put_ne (Disk.ne_nil_of_not_dir hentry) hl, hnot] at h
        cases h
  | wrote =>
      rw [FileSystem.isFile_write, hnot] at h
      cases h
  | failed =>
      rw [Disk.isFile_mkdirs, hnot] at h
      cases h

-- =============================================================== any run

/-- What a create took with its last call was open before, or was
opened by it. -/
theorem CreateMove.took_before
    (hm : s.CreateMove fs resource data d p d' p')
    (h : s.Took resource data p' id x) :
    (p = s.createOpen resource data id
        ∧ fs.leads (s.makeEntityPath resource id) d = .ok ()
        ∧ endsWithName (s.makeEntityPath resource id)
        ∧ d.entry (fs.resolve (s.makeEntityPath resource id)) ≠ some .dir)
      ∨ p = s.createWrite resource data id := by
  cases hm with
  | made => exact absurd h Early.scan.not_took
  | scanned => exact absurd h (Early.opening _).not_took
  | opened hleads hname hentry =>
      rcases h with hp | hp
      · obtain rfl := createWrite_inj hp
        exact Or.inl ⟨rfl, hleads, hname, hentry⟩
      · cases hp
  | wrote =>
      rcases h with hp | hp
      · cases hp
      · cases hp
        exact Or.inr rfl
  | failed made hp hr =>
      rcases h with hp | hp
      · cases hp
      · exact absurd (Prog.ret.inj hp) (hr id)

/-- A create that is about to open a file has just read its id off the
directory. -/
theorem CreateMove.opening
    (hm : s.CreateMove fs resource data d p d' p')
    (h : p' = s.createOpen resource data id) :
    d' = d ∧ fs.IsDirectory (s.makeEntityDir resource) d
      ∧ (endsWithName (s.makeEntityPath resource id) →
        d.isFile (fs.resolve (s.makeEntityPath resource id)) = false) := by
  cases hm with
  | made =>
      unfold createScan createOpen at h
      cases h
  | scanned hdir hid hvalid =>
      obtain rfl := createOpen_inj h
      exact ⟨rfl, hdir, next_unused hdir hid hvalid⟩
  | opened =>
      unfold createWrite createOpen at h
      cases h
  | wrote => cases h
  | failed => cases h

-- =============================================================== any run

variable (s resource data) in
/-- The create has the id, its file opened or not. -/
inductive HasId (p : DiskProg (Option CInt)) (id : CInt) : Prop
  | opening (hp : p = s.createOpen resource data id) : HasId p id
  | took {x : Str} (h : s.Took resource data p id x) : HasId p id

variable (s fs resource content) in
/-- The creates are at their control points; an id is had only once the
directory is there, and taken only when its path has no NUL; and an id
whose file is there when it is about to be opened has been taken by
another create. -/
structure Racing (cf : Creates ι) : Prop where
  create_at : ∀ i, s.CreateAt resource (content i) (cf.thread i)
  dir : ∀ i id, s.HasId resource (content i) (cf.thread i) id →
    fs.IsDirectory (s.makeEntityDir resource) cf.shared
  whole : ∀ i id x, s.Took resource (content i) (cf.thread i) id x →
    nul ∉ s.makeEntityDir resource
  raced : ∀ i id,
    cf.thread i = s.createOpen resource (content i) id →
    endsWithName (s.makeEntityPath resource id) →
    cf.shared.isFile (fs.resolve (s.makeEntityPath resource id)) →
    ∃ j, j ≠ i ∧ ∃ x, s.Took resource (content j) (cf.thread j) id x

/-- A step is a move of one create. -/
theorem step_create (hat : s.CreateAt resource (content i) (cf.thread i))
    (hstep : Conf.Step fs.serve cf i cf') :
    s.CreateMove fs resource (content i) cf.shared (cf.thread i)
        cf'.shared (cf'.thread i)
      ∧ ∀ j, j ≠ i → cf'.thread j = cf.thread j := by
  obtain ⟨c, k, hcall, hshared, hthread, hframe⟩ := hstep.inv
  refine ⟨?_, hframe⟩
  rw [hshared, hthread]
  exact hat.move hcall

omit [DecidableEq ι] in
/-- A file that appears under an id which another create is about to open
was made by the create that moved. -/
theorem Racing.took_of_file_new {j : ι} {id : CInt}
    (h : s.Racing fs resource content cf)
    (hm : s.CreateMove fs resource (content i) cf.shared (cf.thread i)
      cf'.shared (cf'.thread i))
    (hopen : cf.thread j = s.createOpen resource (content j) id)
    (hfile : cf'.shared.isFile (fs.resolve (s.makeEntityPath resource id)))
    (hbefore : cf.shared.isFile
      (fs.resolve (s.makeEntityPath resource id)) = false) :
    s.Took resource (content i) (cf'.thread i) id [] := by
  obtain ⟨id', hp', hname, hloc, hentry⟩ := hm.file_new hfile hbefore
  rw [hloc] at hentry
  have hnul := not_nul_of_opened (h.dir j id (.opening hopen)) hname hentry
  obtain rfl := path_inj hnul hloc.symm
  exact .opened hp'

/-- One step of any create. -/
theorem racing_step (h : s.Racing fs resource content cf)
    (hstep : Conf.Step fs.serve cf i cf') :
    s.Racing fs resource content cf' := by
  obtain ⟨hm, hframe⟩ := step_create (h.create_at i) hstep
  have htook : ∀ j id x, s.Took resource (content j) (cf.thread j) id x →
      ∃ x', s.Took resource (content j) (cf'.thread j) id x' := by
    intro j id x hj
    by_cases hji : j = i
    · subst hji
      exact hm.took hj
    · rw [hframe j hji]
      exact ⟨x, hj⟩
  refine ⟨?_, ?_, ?_, ?_⟩
  · intro j
    by_cases hji : j = i
    · subst hji
      exact hm.at_after
    · rw [hframe j hji]
      exact h.create_at j
  · intro j id hj
    refine FileSystem.IsDirectory.mono ?_ fun _ => hm.dir_kept
    by_cases hji : j = i
    · subst hji
      rcases hj with hopen | hj
      · exact (hm.opening hopen).2.1
      · rcases hm.took_before hj with ⟨hp, -⟩ | hp
        · exact h.dir j id (.opening hp)
        · exact h.dir j id (.took (.opened hp))
    · rw [hframe j hji] at hj
      exact h.dir j id hj
  · intro j id x hj
    by_cases hji : j = i
    · subst hji
      rcases hm.took_before hj with ⟨hp, -, hname, hentry⟩ | hp
      · exact not_nul_of_opened (h.dir j id (.opening hp)) hname hentry
      · exact h.whole j id [] (.opened hp)
    · rw [hframe j hji] at hj
      exact h.whole j id x hj
  · intro j id hopen hname hfile
    by_cases hji : j = i
    · subst hji
      obtain ⟨hsame, -, hfree⟩ := hm.opening hopen
      rw [hsame, hfree hname] at hfile
      cases hfile
    · rw [hframe j hji] at hopen
      cases hbefore : cf.shared.isFile
          (fs.resolve (s.makeEntityPath resource id)) with
      | true =>
          obtain ⟨m, hmj, x, hx⟩ := h.raced j id hopen hname hbefore
          exact ⟨m, hmj, htook m id x hx⟩
      | false =>
          exact ⟨i, fun hij => hji hij.symm, [],
            h.took_of_file_new hm hopen hfile hbefore⟩

omit [DecidableEq ι] in
theorem racing_creating (d : Disk) :
    s.Racing fs resource content (s.creating resource content d) := by
  have hearly : ∀ i, s.Early resource (content i)
      ((s.creating resource content d).thread i) := fun _ => .make
  have hnot : ∀ i id, (s.creating resource content d).thread i
      ≠ s.createOpen resource (content i) id := by
    intro i id heq
    unfold creating create createOpen at heq
    cases heq
  refine ⟨fun i => .make, ?_, ?_, ?_⟩
  · intro i id hi
    rcases hi with hopen | htook
    · exact absurd hopen (hnot i id)
    · exact absurd htook (hearly i).not_took
  · intro i id x htook
    exact absurd htook (hearly i).not_took
  · intro i id hopen
    exact absurd hopen (hnot i id)

-- ==================================================== runs without reopening

variable (s fs resource content) in
/-- No two creates have taken the same id, and the file of an id has
what its create has put there. -/
structure Apart (cf : Creates ι) : Prop where
  unique : ∀ i j id x y, s.Took resource (content i) (cf.thread i) id x →
    s.Took resource (content j) (cf.thread j) id y → i = j
  kept : ∀ i id x, s.Took resource (content i) (cf.thread i) id x →
    cf.shared.entry (fs.resolve (s.makeEntityPath resource id))
      = some (.file x)

/-- A call leaves the files of the others as they are. -/
theorem CreateMove.file_kept
    (hm : s.CreateMove fs resource data d p d' p')
    (h : d.entry l = some (.file x))
    (hl : ∀ id y, s.Took resource data p' id y →
      l ≠ fs.resolve (s.makeEntityPath resource id)) :
    d'.entry l = some (.file x) := by
  cases hm with
  | made => exact Disk.entry_mkdirs_some h _
  | scanned => exact h
  | @opened id hleads hname hentry =>
      rw [Disk.entry_put_ne (Disk.ne_nil_of_not_dir hentry)
        (hl id [] (.opened rfl))]
      exact h
  | @wrote id =>
      rw [FileSystem.entry_write_ne (hl id data (.wrote rfl))]
      exact h
  | failed => exact Disk.entry_mkdirs_some h _

/-- A call puts into the file of its create what the create says. -/
theorem CreateMove.file_own
    (hm : s.CreateMove fs resource data d p d' p')
    (hbefore : ∀ y, s.Took resource data p id y →
      d.entry (fs.resolve (s.makeEntityPath resource id))
        = some (.file y))
    (h : s.Took resource data p' id x) :
    d'.entry (fs.resolve (s.makeEntityPath resource id))
      = some (.file x) := by
  cases hm with
  | made => exact absurd h Early.scan.not_took
  | scanned => exact absurd h (Early.opening _).not_took
  | opened hleads hname hentry =>
      rcases h with hp | hp
      · obtain rfl := createWrite_inj hp
        exact Disk.entry_put_self (Disk.ne_nil_of_not_dir hentry)
      · cases hp
  | wrote =>
      rcases h with hp | hp
      · cases hp
      · cases hp
        have hempty := hbefore [] (.opened rfl)
        rw [FileSystem.write_of_empty hempty]
        apply Disk.entry_put_self
        apply Disk.ne_nil_of_isFile (d := d)
        exact Disk.isFile_iff.mpr ⟨[], hempty⟩
  | failed made hp hr =>
      rcases h with hp | hp
      · cases hp
      · exact absurd (Prog.ret.inj hp) (hr id)

/-- One step of any create that opens no file that is there. -/
theorem apart_step (hrace : s.Racing fs resource content cf)
    (h : s.Apart fs resource content cf) (hquiet : ¬ Reopens fs cf i)
    (hstep : Conf.Step fs.serve cf i cf') :
    s.Apart fs resource content cf' := by
  have hrace' := racing_step hrace hstep
  obtain ⟨hm, hframe⟩ := step_create (hrace.create_at i) hstep
  -- what the moving create has taken, no other has
  have hown : ∀ j id x y,
      s.Took resource (content i) (cf'.thread i) id x →
      s.Took resource (content j) (cf'.thread j) id y → i = j := by
    intro j id x y hi hj
    by_contra hij
    rw [hframe j fun hji => hij hji.symm] at hj
    rcases hm.took_before hi with ⟨hp, hleads, hname, -⟩ | hp
    · have hfile := Disk.isFile_iff.mpr ⟨y, h.kept j id y hj⟩
      exact hquiet (reopens_iff.mpr ⟨_, _, hp, hleads, hname, hfile⟩)
    · exact hij (h.unique i j id [] y (.opened hp) hj)
  refine ⟨?_, ?_⟩
  · intro j m id x y hj hm'
    by_cases hji : j = i
    · subst hji
      exact hown m id x y hj hm'
    · by_cases hmi : m = i
      · subst hmi
        exact (hown j id y x hm' hj).symm
      · rw [hframe j hji] at hj
        rw [hframe m hmi] at hm'
        exact h.unique j m id x y hj hm'
  · intro j id x hj
    by_cases hji : j = i
    · subst hji
      exact hm.file_own (h.kept j id) hj
    · have hj' := hj
      rw [hframe j hji] at hj'
      have hfile := h.kept j id x hj'
      apply hm.file_kept hfile
      intro id' y hi heq
      obtain rfl := path_inj (hrace.whole j id x hj') heq.symm
      exact hji (hown j id' y x hi hj).symm

omit [DecidableEq ι] in
theorem apart_creating (d : Disk) :
    s.Apart fs resource content (s.creating resource content d) := by
  have hnot : ∀ i id x, ¬ s.Took resource (content i)
      ((s.creating resource content d).thread i) id x :=
    fun i id x => Early.make.not_took
  exact ⟨fun i j id x y hi => absurd hi (hnot i id x),
    fun i id x hi => absurd hi (hnot i id x)⟩

-- ================================================================ exactly

/-- The create has returned the id. -/
def Created (cf : Creates ι) (i : ι) (id : CInt) : Prop :=
  cf.thread i = .ret (some (some id))

variable (s fs resource content) in
/-- The ids that were returned are distinct, and the file of each has
the data of its create. -/
structure NoCollision (cf : Creates ι) : Prop where
  distinct : ∀ i j id, Created cf i id → Created cf j id → i = j
  kept : ∀ i id, Created cf i id →
    cf.shared.entry (fs.resolve (s.makeEntityPath resource id))
      = some (.file (content i))

omit [DecidableEq ι] in
theorem Apart.noCollision (h : s.Apart fs resource content cf) :
    s.NoCollision fs resource content cf where
  distinct := fun i j id hi hj =>
    h.unique i j id _ _ (.wrote hi) (.wrote hj)
  kept := fun i id hi => h.kept i id _ (.wrote hi)

/-- A create opens the file of an id, and writes it next. -/
theorem CreateAt.of_openTruncate {path : Str}
    {k : Bool → DiskProg (Option CInt)} (hat : s.CreateAt resource data p)
    (hp : p = .call (.openTruncate path) k) :
    ∃ id, path = s.makeEntityPath resource id
      ∧ p = s.createOpen resource data id
      ∧ k true = s.createWrite resource data id := by
  cases hat with
  | make =>
      unfold create at hp
      cases hp
  | scan =>
      unfold createScan at hp
      cases hp
  | opening id =>
      unfold createOpen at hp
      cases hp
      exact ⟨id, rfl, rfl, rfl⟩
  | writing id =>
      unfold createWrite at hp
      cases hp
  | returned r => cases hp

/-- A step that reopens takes an id that another create has. -/
theorem reopens_step (hrace : s.Racing fs resource content cf)
    (hbad : Reopens fs cf i) (hstep : Conf.Step fs.serve cf i cf') :
    ∃ id j, j ≠ i
      ∧ (∃ x, s.Took resource (content i) (cf'.thread i) id x)
      ∧ ∃ y, s.Took resource (content j) (cf'.thread j) id y := by
  obtain ⟨path, k, hcall, hleads, hname, hfile⟩ := reopens_iff.mp hbad
  obtain ⟨c, k', hcall', -, hthread, hframe⟩ := hstep.inv
  rw [hcall] at hcall'
  cases hcall'
  have hserve : (fs.serve (.openTruncate path) cf.shared).2 = true := by
    rw [FileSystem.serve_openTruncate hleads hname,
      FileSystem.openTruncate_of_file hfile]
  obtain ⟨id, rfl, hopen, hwrite⟩ :=
    (hrace.create_at i).of_openTruncate hcall
  rw [hserve, hwrite] at hthread
  obtain ⟨j, hji, y, hj⟩ := hrace.raced i id hopen hname hfile
  refine ⟨id, j, hji, ⟨[], .opened hthread⟩, y, ?_⟩
  rw [hframe j hji]
  exact hj

/-- Who has taken an id returns it. -/
theorem took_run {sched : List ι} (hrun : Run (Conf.Step fs.serve) cf sched cf')
    (hrace : s.Racing fs resource content cf)
    (hi : ∃ x, s.Took resource (content i) (cf.thread i) id x) :
    ∃ x, s.Took resource (content i) (cf'.thread i) id x := by
  have hinv := hrun.invariant
    (I := fun cf => s.Racing fs resource content cf
      ∧ ∃ x, s.Took resource (content i) (cf.thread i) id x) ?_ ⟨hrace, hi⟩
  · exact hinv.2
  · intro cf m cf' hI hstep
    obtain ⟨hrace, x, hx⟩ := hI
    refine ⟨racing_step hrace hstep, ?_⟩
    obtain ⟨hm, hframe⟩ := step_create (hrace.create_at m) hstep
    by_cases him : i = m
    · subst him
      exact hm.took hx
    · rw [hframe i him]
      exact ⟨x, hx⟩

omit [DecidableEq ι] in
/-- A create that has returned has returned the id it took. -/
theorem Took.created (h : s.Took resource (content i) (cf.thread i) id x)
    (hdone : (cf.thread i).returned) : Created cf i id := by
  rcases h with hp | hp
  · rw [hp] at hdone
    cases hdone
  · exact hp

/-- Concurrent creates, exactly. For any number of creates on one
resource of one disk and any schedule of their calls: if no step opens a
file that is there, the ids that have been returned are distinct and the
file of each has the data of its create; and once all creates have
returned this is so only then. -/
theorem creates_apart (s : RealEntityStorage) (fs : FileSystem)
    (resource : Str) (content : ι → Str) (d : Disk) (sched : List ι)
    (cf : Creates ι)
    (hrun : Run (Conf.Step fs.serve) (s.creating resource content d) sched
      cf) :
    (Run (Guarded (fun cf i => ¬ Reopens fs cf i) (Conf.Step fs.serve))
        (s.creating resource content d) sched cf →
      s.NoCollision fs resource content cf)
    ∧ ((∀ i, (cf.thread i).returned) →
        s.NoCollision fs resource content cf →
        Run (Guarded (fun cf i => ¬ Reopens fs cf i) (Conf.Step fs.serve))
          (s.creating resource content d) sched cf) := by
  constructor
  · intro hguarded
    have hinv := hguarded.invariant
      (I := fun cf => s.Racing fs resource content cf
        ∧ s.Apart fs resource content cf) ?_
      ⟨racing_creating d, apart_creating d⟩
    · exact hinv.2.noCollision
    · intro cf i cf' hI hstep
      obtain ⟨hquiet, hstep⟩ := hstep
      exact ⟨racing_step hI.1 hstep, apart_step hI.1 hI.2 hquiet hstep⟩
  · intro hdone hnone
    rcases hrun.guarded_or_breach fun cf i => ¬ Reopens fs cf i with
      hguarded | ⟨pre, i, post, t, t', rfl, hpre, hbad, hstep, hpost⟩
    · exact hguarded
    · have hrace : s.Racing fs resource content t :=
        hpre.of_guarded.invariant (fun _ _ _ hI hst => racing_step hI hst)
          (racing_creating d)
      have hrace' := racing_step hrace hstep
      obtain ⟨id, j, hji, hi, hj⟩ :=
        reopens_step hrace (not_not.mp hbad) hstep
      obtain ⟨x, hx⟩ := took_run hpost hrace' hi
      obtain ⟨y, hy⟩ := took_run hpost hrace' hj
      have hij := hnone.distinct i j id (hx.created (hdone i))
        (hy.created (hdone j))
      exact absurd hij.symm hji

/-- Two creates on `/data`. -/
def twoCreates : Creates Bool :=
  dataStorage.creating "a".toList
    (fun i => if i then "x".toList else "y".toList) dataDisk

theorem creates_apart_in_turn :
    ∃ cf, dataStorage.NoCollision plainSystem "a".toList
        (fun i => if i then "x".toList else "y".toList) cf
      ∧ Created cf true (.ofInt 1) ∧ Created cf false (.ofInt 2) := by
  have hplay : (Conf.playGuarded
      (fun cf i => ¬ Reopens plainSystem cf i) plainSystem.serve twoCreates
      [true, true, true, true, false, false, false, false]).any
        (fun cf => (cf.thread true).result = some (some (some (.ofInt 1)))
          ∧ (cf.thread false).result = some (some (some (.ofInt 2)))) := by
    decide +kernel
  obtain ⟨cf, hcf, hresult⟩ := (Option.any_eq_true _ _).mp hplay
  obtain ⟨htrue, hfalse⟩ := of_decide_eq_true hresult
  have hguarded := Conf.run_of_playGuarded hcf
  exact ⟨cf, (creates_apart dataStorage plainSystem "a".toList _
      dataDisk _ cf hguarded.of_guarded).1 hguarded,
    Prog.result_eq_some_iff.mp htrue, Prog.result_eq_some_iff.mp hfalse⟩

/-- Two creates that read the directory before either opens a file. -/
theorem creates_collide :
    ¬ ∀ (sched : List Bool) (cf : Creates Bool),
      Run (Conf.Step plainSystem.serve) twoCreates sched cf →
      (∀ i, (cf.thread i).returned) →
      dataStorage.NoCollision plainSystem "a".toList
        (fun i => if i then "x".toList else "y".toList) cf := by
  intro hclaim
  have hplay : (Conf.play plainSystem.serve twoCreates
      [true, false, true, false, true, false, true, false]).any
        (fun cf => (cf.thread true).result = some (some (some (.ofInt 1)))
          ∧ (cf.thread false).result = some (some (some (.ofInt 1)))) := by
    decide +kernel
  obtain ⟨cf, hcf, hresult⟩ := (Option.any_eq_true _ _).mp hplay
  obtain ⟨htrue, hfalse⟩ := of_decide_eq_true hresult
  rw [Prog.result_eq_some_iff] at htrue hfalse
  have hdone : ∀ i, (cf.thread i).returned := by
    intro i
    cases i
    · rw [hfalse]
      rfl
    · rw [htrue]
      rfl
  have hnone := hclaim _ cf (Conf.run_of_play hcf) hdone
  have hsame := hnone.distinct true false _ htrue hfalse
  cases hsame

end RealEntityStorage

end Creeper
