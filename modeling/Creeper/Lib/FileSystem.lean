/-
A file system behind the calls a program makes on it.

# Paths

A program names a file by a string. The system reads the string up to
its first NUL, and walks it segment by segment, from the root or from
the working directory. Where the walk ends is the location of the path
(`resolve`); there are no links, so `..` goes up in the text. But each
name on the way is looked up: the path `leads` to its location when
every place the walk comes to by a name, other than the location itself,
is a directory, and no name is too long. So `a/..` leads nowhere while
there is no `a`, and `a/` not unless `a` is a directory. A path that
does not end with a name leads to a directory whatever the disk has
there: the working directory can have been removed. (One made again
under its name is taken for it; and no path is too long as a whole.)

# The calls

`DiskCall` has the calls of `std::filesystem` and of the file streams,
`FileSystem.serve` serves them, one call being one step. An answer
`none` is a `filesystem_error`. To `create_directories` every place the
walk comes to is one to be made if it is not there. A stream that has
been opened for writing starts at the beginning of its file and writes
over what is there; a stream opened on a directory reads nothing. The
order in which a directory is iterated is the system's own (`order`),
and so is the length of a name it takes (`nameMax`).
-/
import Mathlib.Data.List.TakeWhile
import Creeper.Lib.Decimal
import Creeper.Lib.Disk
import Creeper.Lib.Path
import Creeper.Lib.Prog

namespace Creeper.Lib

-- =================================================================== paths

/-- The character that ends a string handed to the system. -/
def nul : Char := Char.ofNat 0

/-- The path the system reads. -/
def cPath (path : List Char) : List Char := path.takeWhile (· ≠ nul)

/-- The segments of a path. -/
def segs (path : List Char) : List (List Char) := segments '/' (cPath path)

/-- The path ends with a name, and not with a segment that has a
meaning. -/
def endsWithName (path : List Char) : Bool :=
  (segs path).getLast?.any fun seg => seg ≠ ".".toList ∧ seg ≠ "..".toList

/-- And there is no separator behind it. -/
def endsAtName (path : List Char) : Bool :=
  endsWithName path && (cPath path).getLast? ≠ some '/'

/-- The `/` of `std::filesystem::path`. -/
def pathAppend (path rest : List Char) : List Char :=
  if rest.head? = some '/' then rest
  else if path = [] ∨ path.getLast? = some '/' then path ++ rest
  else path ++ '/' :: rest

/-- A name that can be a directory's or a file's own: one component of a
path, and not one of the two with a meaning. -/
structure OrdinaryName (name : List Char) : Prop where
  ne_nil : name ≠ []
  not_slash : '/' ∉ name
  not_nul : nul ∉ name
  not_here : name ≠ ".".toList
  not_up : name ≠ "..".toList

instance (name : List Char) : Decidable (OrdinaryName name) :=
  decidable_of_iff (name ≠ [] ∧ '/' ∉ name ∧ nul ∉ name
      ∧ name ≠ ".".toList ∧ name ≠ "..".toList)
    ⟨fun h => ⟨h.1, h.2.1, h.2.2.1, h.2.2.2.1, h.2.2.2.2⟩,
      fun h => ⟨h.1, h.2, h.3, h.4, h.5⟩⟩

/-- A numeral is an ordinary name. -/
theorem ordinaryName_decimalInt (i : Int) : OrdinaryName (decimalInt i) where
  ne_nil := by
    cases i with
    | ofNat n => exact decimal_ne_nil n
    | negSucc n => exact List.cons_ne_nil _ _
  not_slash := not_mem_decimalInt (by decide) (by decide) i
  not_nul := not_mem_decimalInt (by decide) (by decide) i
  not_here := by
    intro heq
    have hdot := not_mem_decimalInt (c := '.') (by decide) (by decide) i
    rw [heq] at hdot
    exact hdot (by decide)
  not_up := by
    intro heq
    have hdot := not_mem_decimalInt (c := '.') (by decide) (by decide) i
    rw [heq] at hdot
    exact hdot (by decide)

/-- A path without NUL is read whole. -/
theorem cPath_of_not_mem {path : List Char} (h : nul ∉ path) :
    cPath path = path := by
  unfold cPath
  rw [List.takeWhile_eq_self_iff]
  intro c hc
  have hne : c ≠ nul := fun heq => h (heq ▸ hc)
  simpa using hne

/-- A NUL in front ends the path. -/
theorem cPath_append_of_mem {path : List Char} (h : nul ∈ path)
    (rest : List Char) : cPath (path ++ rest) = cPath path := by
  unfold cPath
  rw [List.takeWhile_append]
  split
  · next hlength =>
    have hall := List.takeWhile_eq_self_iff.mp
      ((List.takeWhile_prefix _).eq_of_length hlength)
    exact absurd (hall nul h) (by simp)
  · rfl

/-- Without NUL in front, the path goes on. -/
theorem cPath_append_of_not_mem {path : List Char} (h : nul ∉ path)
    (rest : List Char) : cPath (path ++ rest) = path ++ cPath rest := by
  unfold cPath
  apply List.takeWhile_append_of_pos
  intro c hc
  have hne : c ≠ nul := fun heq => h (heq ▸ hc)
  simpa using hne

/-- What a segment is made of. -/
theorem mem_segs {path seg : List Char} (h : seg ∈ segs path) :
    seg ≠ [] ∧ '/' ∉ seg ∧ nul ∉ seg := by
  obtain ⟨hne, hslash, hmem⟩ := mem_segments h
  refine ⟨hne, hslash, fun hnul => ?_⟩
  have htake := List.mem_takeWhile_imp (hmem nul hnul)
  simp at htake

/-- One component is one segment. -/
theorem segs_of_component {name : List Char} (hne : name ≠ [])
    (hslash : '/' ∉ name) (hnul : nul ∉ name) : segs name = [name] := by
  unfold segs
  rw [cPath_of_not_mem hnul, segments_of_not_mem hne hslash]

/-- An ordinary name is no absolute path. -/
theorem OrdinaryName.head?_ne {name : List Char} (h : OrdinaryName name) :
    name.head? ≠ some '/' :=
  fun hhead => h.not_slash (List.mem_of_head? hhead)

/-- No NUL comes from appending. -/
theorem nul_not_mem_pathAppend {path rest : List Char} (hpath : nul ∉ path)
    (hrest : nul ∉ rest) : nul ∉ pathAppend path rest := by
  have hslash : nul ≠ '/' := by decide
  unfold pathAppend
  split
  · exact hrest
  · split <;> simp [hpath, hrest, hslash]

/-- The segments of an appended path. -/
theorem segs_pathAppend {path rest : List Char} (hpath : nul ∉ path)
    (hrest : rest.head? ≠ some '/') :
    segs (pathAppend path rest) = segs path ++ segs rest := by
  unfold segs pathAppend
  rw [if_neg hrest, cPath_of_not_mem hpath]
  split
  · next hend =>
    rcases hend with rfl | hend
    · rfl
    · -- the separator is there already
      obtain ⟨init, rfl⟩ := List.getLast?_eq_some_iff.mp hend
      rw [cPath_append_of_not_mem hpath, List.append_assoc,
        List.singleton_append, segments_append_sep, segments_append_sep]
      congr 1
      exact (List.append_nil _).symm
  · have hslash : cPath ('/' :: rest) = '/' :: cPath rest := rfl
    rw [cPath_append_of_not_mem hpath, hslash, segments_append_sep]

/-- An ordinary name is one more segment. -/
theorem segs_ordinary {path rest : List Char} (hpath : nul ∉ path)
    (hrest : OrdinaryName rest) :
    segs (pathAppend path rest) = segs path ++ [rest] := by
  rw [segs_pathAppend hpath hrest.head?_ne,
    segs_of_component hrest.ne_nil hrest.not_slash hrest.not_nul]

/-- Nothing that is appended to a path with a NUL is read. -/
theorem segs_pathAppend_nul {path rest : List Char} (hpath : nul ∈ path)
    (hrest : rest.head? ≠ some '/') :
    segs (pathAppend path rest) = segs path := by
  unfold segs pathAppend
  rw [if_neg hrest]
  split <;> rw [cPath_append_of_mem hpath]

/-- An appended path is absolute exactly when the path is. -/
theorem head?_pathAppend {path rest : List Char}
    (hrest : rest.head? ≠ some '/') :
    (pathAppend path rest).head? = some '/' ↔ path.head? = some '/' := by
  unfold pathAppend
  rw [if_neg hrest]
  cases path with
  | nil => simpa using hrest
  | cons c path => split <;> simp

-- =============================================================== the calls

/-- The calls, each with the path the program gives. -/
inductive DiskCall
  | createDirectories (path : List Char)
  | directoryIterator (path : List Char)
  | pathExists (path : List Char)
  | isDirectory (path : List Char)
  | openTruncate (path : List Char)
  | write (path data : List Char)
  | openRead (path : List Char)
  | read (path : List Char)
  | remove (path : List Char)
  deriving DecidableEq

/-- What each call returns, `none` being a `filesystem_error`; a stream
only says whether it is open. -/
abbrev DiskCall.Reply : DiskCall → Type
  | .createDirectories _ => Option Unit
  | .directoryIterator _ => Option (List DirEntry)
  | .pathExists _ => Option Bool
  | .isDirectory _ => Option Bool
  | .openTruncate _ => Bool
  | .write _ _ => Unit
  | .openRead _ => Bool
  | .read _ => List Char
  | .remove _ => Option Bool

/-- The path a call is about. -/
def DiskCall.path : DiskCall → List Char
  | .createDirectories path => path
  | .directoryIterator path => path
  | .pathExists path => path
  | .isDirectory path => path
  | .openTruncate path => path
  | .write path _ => path
  | .openRead path => path
  | .read path => path
  | .remove path => path

/-- What a file system leaves to the system it is on: the working
directory, the longest name (14 bytes at the least, `_POSIX_NAME_MAX`),
and the order a directory is iterated in. -/
structure FileSystem where
  cwd : Loc
  nameMax : Nat
  nameMax_ge : 14 ≤ nameMax
  order : List DirEntry → List DirEntry
  order_perm : ∀ names, (order names).Perm names

namespace FileSystem

variable (fs : FileSystem)

/-- Where a path begins. -/
def start (path : List Char) : Loc :=
  if path.head? = some '/' then [] else fs.cwd

/-- Where a path leads. -/
def resolve (path : List Char) : Loc :=
  walk ".".toList "..".toList (fs.start path) (segs path)

/-- The places a path comes to by a name. -/
def ways (path : List Char) : List Loc :=
  entered ".".toList "..".toList (fs.start path) (segs path)

/-- The places a path goes through: where it ends is not one of them, if
it ends at a name. -/
def through (path : List Char) : List Loc :=
  if endsAtName path then (fs.ways path).dropLast else fs.ways path

/-- The last segment of the path is not too long. -/
def lastFits (path : List Char) : Bool :=
  (segs path).getLast?.all fun seg => seg.length ≤ fs.nameMax

/-- Looking a path up: whether it leads to its location. -/
def leads (path : List Char) (d : Disk) : Except Errno Unit :=
  if cPath path = [] then .error .noEntry
  else
    match d.pass fs.nameMax (fs.through path) with
    | .error e => .error e
    | .ok _ => if fs.lastFits path then .ok () else .error .nameTooLong

/-- What a path that leads to its location finds there. -/
def found (path : List Char) (d : Disk) : Option Entry :=
  if endsWithName path then d.entry (fs.resolve path) else some .dir

/-- What a stream opened on the path reads. -/
def contents (path : List Char) (d : Disk) : List Char :=
  if endsWithName path then d.content (fs.resolve path) else []

/-- `std::filesystem::create_directories` -/
def createDirectories (path : List Char) (d : Disk) : Disk × Option Unit :=
  if cPath path = [] then (d, none)
  else Disk.make fs.nameMax (fs.ways path) d

/-- A `std::ofstream` opened on a path: it empties the file, or makes
one. -/
def openTruncate (loc : Loc) (d : Disk) : Disk × Bool :=
  match d.entry loc with
  | some .dir => (d, false)
  | some (.file _) => (d.put loc (.file []), true)
  | none =>
      if d.isDir loc.dropLast then (d.put loc (.file []), true)
      else (d, false)

/-- What a stream just opened inserts, at the beginning of its file. -/
def write (loc : Loc) (data : List Char) (d : Disk) : Disk :=
  match d.entry loc with
  | some (.file content) =>
      d.put loc (.file (data ++ content.drop data.length))
  | _ => d

/-- `std::filesystem::remove` -/
def remove (loc : Loc) (d : Disk) : Disk × Option Bool :=
  match d.entry loc with
  | none => (d, some false)
  | some (.file _) => (d.drop loc, some true)
  | some .dir =>
      if d.children loc ≠ [] then (d, none) else (d.drop loc, some true)

/-- One call served. A status that cannot be had is one of nothing, but
for a name that is too long; and only what the path names is opened for
output or removed. -/
def serve : Server DiskCall DiskCall.Reply Disk
  | .createDirectories path, d => fs.createDirectories path d
  | .directoryIterator path, d =>
      (d, match fs.leads path d with
        | .ok _ =>
            if fs.found path d = some .dir then
              some (fs.order (d.children (fs.resolve path)))
            else none
        | .error _ => none)
  | .pathExists path, d =>
      (d, match fs.leads path d with
        | .ok _ => some (fs.found path d).isSome
        | .error e => if e = .nameTooLong then none else some false)
  | .isDirectory path, d =>
      (d, match fs.leads path d with
        | .ok _ => some (fs.found path d = some .dir)
        | .error e => if e = .nameTooLong then none else some false)
  | .openTruncate path, d =>
      match fs.leads path d with
      | .ok _ =>
          if endsWithName path then openTruncate (fs.resolve path) d
          else (d, false)
      | .error _ => (d, false)
  | .write path data, d => (write (fs.resolve path) data d, ())
  | .openRead path, d =>
      (d, match fs.leads path d with
        | .ok _ => (fs.found path d).isSome
        | .error _ => false)
  | .read path, d => (d, fs.contents path d)
  | .remove path, d =>
      match fs.leads path d with
      | .ok _ =>
          if endsWithName path then remove (fs.resolve path) d else (d, none)
      | .error e => (d, if e = .noEntry then some false else none)

-- ------------------------------------------------------ where paths lead

section Paths

variable {fs} {path rest : List Char} {d d' : Disk}

/-- An appended path begins where the path does. -/
theorem start_pathAppend (hrest : rest.head? ≠ some '/') :
    fs.start (pathAppend path rest) = fs.start path := by
  unfold start
  simp only [head?_pathAppend hrest]

theorem resolve_pathAppend (hpath : nul ∉ path)
    (hrest : rest.head? ≠ some '/') :
    fs.resolve (pathAppend path rest)
      = walk ".".toList "..".toList (fs.resolve path) (segs rest) := by
  unfold resolve
  rw [segs_pathAppend hpath hrest, walk_append, start_pathAppend hrest]

theorem resolve_pathAppend_nul (hpath : nul ∈ path)
    (hrest : rest.head? ≠ some '/') :
    fs.resolve (pathAppend path rest) = fs.resolve path := by
  unfold resolve
  rw [segs_pathAppend_nul hpath hrest, start_pathAppend hrest]

/-- What is appended is all that leads beyond the path. -/
theorem mem_segs_of_resolve {beyond : Loc} {name : List Char}
    (h : fs.resolve (pathAppend path rest) = fs.resolve path ++ beyond)
    (hname : name ∈ beyond) : name ∈ segs rest := by
  by_cases hrest : rest.head? = some '/'
  · have habs : fs.resolve (pathAppend path rest)
        = walk ".".toList "..".toList [] (segs rest) := by
      unfold resolve start pathAppend
      rw [if_pos hrest, if_pos hrest]
    rw [habs] at h
    exact mem_of_walk_eq_append [] h
      (List.mem_append_right _ hname)
  · by_cases hpath : nul ∈ path
    · rw [resolve_pathAppend_nul hpath hrest] at h
      rw [List.self_eq_append_right.mp h] at hname
      cases hname
    · rw [resolve_pathAppend hpath hrest] at h
      exact mem_of_walk_eq_append _ h hname

/-- An ordinary name leads one level down. -/
theorem resolve_ordinary (hpath : nul ∉ path) (hrest : OrdinaryName rest) :
    fs.resolve (pathAppend path rest) = fs.resolve path ++ [rest] := by
  rw [resolve_pathAppend hpath hrest.head?_ne,
    segs_of_component hrest.ne_nil hrest.not_slash hrest.not_nul]
  apply walk_names
  intro seg hseg
  rw [List.mem_singleton.mp hseg]
  exact ⟨hrest.not_here, hrest.not_up⟩

/-- Only ordinary names lead one level down to themselves. -/
theorem resolve_one_down_iff :
    fs.resolve (pathAppend path rest) = fs.resolve path ++ [rest]
      ↔ nul ∉ path ∧ OrdinaryName rest := by
  constructor
  · intro h
    obtain ⟨hne, hslash, hnul⟩ :=
      mem_segs (mem_segs_of_resolve h (List.mem_singleton_self _))
    have hhead : rest.head? ≠ some '/' := fun hh =>
      hslash (List.mem_of_head? hh)
    have hlonger := congrArg List.length h
    rw [List.length_append, List.length_singleton] at hlonger
    have hpath : nul ∉ path := by
      intro hpath
      rw [resolve_pathAppend_nul hpath hhead] at hlonger
      omega
    rw [resolve_pathAppend hpath hhead,
      segs_of_component hne hslash hnul] at hlonger
    refine ⟨hpath, hne, hslash, hnul, ?_, ?_⟩
    · intro heq
      subst heq
      have hstay : walk ".".toList "..".toList (fs.resolve path)
          [".".toList] = fs.resolve path := rfl
      rw [hstay] at hlonger
      omega
    · intro heq
      subst heq
      have hup : walk ".".toList "..".toList (fs.resolve path)
          ["..".toList] = (fs.resolve path).dropLast := rfl
      rw [hup, List.length_dropLast] at hlonger
      omega
  · intro h
    exact resolve_ordinary h.1 h.2

-- -------------------------------------------------------- looking paths up

variable (fs) in
/-- A path that ends with a name comes to its location last. -/
theorem ways_of_endsWithName (h : endsWithName path) :
    (∃ before, fs.ways path = before ++ [fs.resolve path])
      ∧ (fs.lastFits path
        ↔ nameLength (fs.resolve path) ≤ fs.nameMax) := by
  unfold endsWithName at h
  obtain ⟨name, hlast, hname⟩ := (Option.any_eq_true _ _).mp h
  obtain ⟨init, hsegs⟩ := List.getLast?_eq_some_iff.mp hlast
  obtain ⟨hhere, hup⟩ := of_decide_eq_true hname
  have hresolve : fs.resolve path
      = walk ".".toList "..".toList (fs.start path) init ++ [name] := by
    unfold resolve
    rw [hsegs, walk_append]
    exact enter_name hhere hup _
  constructor
  · refine ⟨entered ".".toList "..".toList (fs.start path) init, ?_⟩
    unfold ways
    rw [hsegs, entered_concat hhere hup, hresolve]
  · unfold lastFits
    rw [hlast, hresolve, nameLength_concat]
    simp

variable (fs) in
/-- A path that ends at a name goes through what comes before it. -/
theorem ways_of_endsAtName (h : endsAtName path) :
    fs.ways path = fs.through path ++ [fs.resolve path] := by
  have hthrough : fs.through path = (fs.ways path).dropLast := if_pos h
  unfold endsAtName at h
  rw [Bool.and_eq_true] at h
  obtain ⟨before, hways⟩ := (fs.ways_of_endsWithName h.1).1
  rw [hthrough, hways, List.dropLast_concat]

variable (fs) in
/-- The segments with a meaning are not too long. -/
theorem lastFits_of_not_endsWithName (h : endsWithName path = false) :
    fs.lastFits path := by
  unfold endsWithName at h
  unfold lastFits
  cases hlast : (segs path).getLast? with
  | none => rfl
  | some seg =>
      have hmax := fs.nameMax_ge
      rw [hlast, Option.any_some, decide_eq_false_iff_not, not_and_or,
        not_not, not_not] at h
      rw [Option.all_some, decide_eq_true_iff]
      rcases h with rfl | rfl
      · exact (show ".".toList.length ≤ 14 by decide).trans hmax
      · exact (show "..".toList.length ≤ 14 by decide).trans hmax

/-- A path leads to its location through directories. -/
theorem leads_iff :
    fs.leads path d = .ok ()
      ↔ cPath path ≠ []
        ∧ (∀ way ∈ fs.through path,
            nameLength way ≤ fs.nameMax ∧ d.entry way = some .dir)
        ∧ fs.lastFits path := by
  rw [← Disk.pass_eq_ok_iff]
  unfold leads
  by_cases hnil : cPath path = []
  · simp [hnil]
  · rw [if_neg hnil]
    cases d.pass fs.nameMax (fs.through path) with
    | error e => simp
    | ok u => cases fs.lastFits path <;> simp [hnil]

/-- While directories are kept, a path goes on leading to its
location. -/
theorem leads_mono (hkept : Disk.DirsKept d d')
    (h : fs.leads path d = .ok ()) : fs.leads path d' = .ok () := by
  rw [leads_iff] at h ⊢
  obtain ⟨hnil, hthrough, hlast⟩ := h
  refine ⟨hnil, fun way hway => ?_, hlast⟩
  obtain ⟨hlength, hdir⟩ := hthrough way hway
  exact ⟨hlength, hkept way hdir⟩

variable (fs) in
/-- The path leads to a directory. -/
structure IsDirectory (path : List Char) (d : Disk) : Prop where
  leads : fs.leads path d = .ok ()
  found : fs.found path d = some .dir

/-- A path leads to a directory when every place it comes to is one. -/
theorem isDirectory_iff :
    fs.IsDirectory path d
      ↔ cPath path ≠ []
        ∧ ∀ way ∈ fs.ways path,
            nameLength way ≤ fs.nameMax ∧ d.entry way = some .dir := by
  have hsplit : fs.IsDirectory path d
      ↔ fs.leads path d = .ok () ∧ fs.found path d = some .dir :=
    ⟨fun h => ⟨h.leads, h.found⟩, fun h => ⟨h.1, h.2⟩⟩
  rw [hsplit, leads_iff]
  unfold found
  cases hname : endsWithName path with
  | false =>
      have hthrough : fs.through path = fs.ways path := by
        unfold through endsAtName
        rw [hname]
        rfl
      have hlast := fs.lastFits_of_not_endsWithName hname
      rw [hthrough]
      simp [hlast]
  | true =>
      obtain ⟨⟨before, hways⟩, hlast⟩ :=
        fs.ways_of_endsWithName hname
      rw [hlast, if_pos rfl]
      cases hat : endsAtName path with
      | true =>
          rw [fs.ways_of_endsAtName hat, List.forall_mem_append,
            List.forall_mem_singleton]
          tauto
      | false =>
          have hthrough : fs.through path = fs.ways path :=
            if_neg (by rw [hat]; simp)
          rw [hthrough, hways, List.forall_mem_append,
            List.forall_mem_singleton]
          tauto

theorem IsDirectory.mono (h : fs.IsDirectory path d)
    (hkept : Disk.DirsKept d d') : fs.IsDirectory path d' := by
  obtain ⟨hnil, hways⟩ := isDirectory_iff.mp h
  refine isDirectory_iff.mpr ⟨hnil, fun way hway => ?_⟩
  obtain ⟨hlength, hdir⟩ := hways way hway
  exact ⟨hlength, hkept way hdir⟩

/-- The places of an ordinary name below a path. -/
theorem ways_pathAppend (hpath : nul ∉ path) (hrest : OrdinaryName rest) :
    fs.ways (pathAppend path rest)
      = fs.ways path ++ [fs.resolve path ++ [rest]] := by
  unfold ways resolve
  rw [segs_ordinary hpath hrest, start_pathAppend hrest.head?_ne,
    entered_concat hrest.not_here hrest.not_up]

/-- A path that something is appended to is not empty. -/
theorem cPath_pathAppend_ne (hpath : nul ∉ path)
    (hrest : OrdinaryName rest) : cPath (pathAppend path rest) ≠ [] := by
  intro hnil
  have hsegs := segs_ordinary hpath hrest
  unfold segs at hsegs
  rw [hnil] at hsegs
  exact absurd hsegs.symm (by simp [segments, segmentsFrom])

/-- A path with an ordinary name at its end ends with it. -/
theorem endsWithName_pathAppend (hpath : nul ∉ path)
    (hrest : OrdinaryName rest) : endsWithName (pathAppend path rest) := by
  unfold endsWithName
  rw [segs_ordinary hpath hrest, List.getLast?_concat, Option.any_some]
  exact decide_eq_true ⟨hrest.not_here, hrest.not_up⟩

theorem endsAtName_pathAppend (hpath : nul ∉ path)
    (hrest : OrdinaryName rest) : endsAtName (pathAppend path rest) := by
  have hwhole := cPath_of_not_mem
    (nul_not_mem_pathAppend hpath hrest.not_nul)
  unfold endsAtName
  rw [endsWithName_pathAppend hpath hrest, Bool.true_and, hwhole]
  apply decide_eq_true
  have hlast : (pathAppend path rest).getLast? = rest.getLast? := by
    unfold pathAppend
    rw [if_neg hrest.head?_ne]
    split
    · exact List.getLast?_append_of_ne_nil _ hrest.ne_nil
    · rw [List.getLast?_append_of_ne_nil _ (List.cons_ne_nil _ _),
        List.getLast?_cons_of_ne_nil hrest.ne_nil]
  rw [hlast]
  exact fun hsep => hrest.not_slash (List.mem_of_getLast? hsep)

/-- A path with an ordinary name at its end goes through what is in
front of it. -/
theorem through_pathAppend (hpath : nul ∉ path)
    (hrest : OrdinaryName rest) :
    fs.through (pathAppend path rest) = fs.ways path := by
  have hends := fs.ways_of_endsAtName (endsAtName_pathAppend hpath hrest)
  rw [ways_pathAppend hpath hrest] at hends
  exact (List.append_inj' hends rfl).1.symm

/-- An ordinary name finds what is in its place. -/
theorem found_pathAppend (hpath : nul ∉ path) (hrest : OrdinaryName rest) :
    fs.found (pathAppend path rest) d
      = d.entry (fs.resolve path ++ [rest]) := by
  unfold found
  rw [if_pos (endsWithName_pathAppend hpath hrest),
    resolve_ordinary hpath hrest]

/-- What is appended behind a NUL changes nothing that is found. -/
theorem found_pathAppend_nul (hpath : nul ∈ path)
    (hrest : rest.head? ≠ some '/') :
    fs.found (pathAppend path rest) d = fs.found path d := by
  unfold found endsWithName
  rw [segs_pathAppend_nul hpath hrest, resolve_pathAppend_nul hpath hrest]

/-- From a directory an ordinary name leads on. -/
theorem IsDirectory.leads_pathAppend (h : fs.IsDirectory path d)
    (hpath : nul ∉ path) (hrest : OrdinaryName rest)
    (hlength : rest.length ≤ fs.nameMax) :
    fs.leads (pathAppend path rest) d = .ok () := by
  obtain ⟨-, hways⟩ := isDirectory_iff.mp h
  have hname := endsWithName_pathAppend hpath hrest
  refine leads_iff.mpr ⟨cPath_pathAppend_ne hpath hrest, ?_, ?_⟩
  · rw [through_pathAppend hpath hrest]
    exact hways
  · rw [(fs.ways_of_endsWithName hname).2, resolve_ordinary hpath hrest,
      nameLength_concat]
    exact hlength

/-- Below a name that is not in the directory, nothing is found. -/
theorem IsDirectory.leads_missing {name : List Char}
    (h : fs.IsDirectory path d) (hpath : nul ∉ path)
    (hrest : OrdinaryName rest) (hlength : rest.length ≤ fs.nameMax)
    (hnone : d.entry (fs.resolve path ++ [rest]) = none)
    (hname : OrdinaryName name) :
    fs.leads (pathAppend (pathAppend path rest) name) d
      = .error .noEntry := by
  have hdir := nul_not_mem_pathAppend hpath hrest.not_nul
  obtain ⟨-, hways⟩ := isDirectory_iff.mp h
  unfold FileSystem.leads
  rw [if_neg (cPath_pathAppend_ne hdir hname), through_pathAppend hdir hname,
    ways_pathAppend hpath hrest, Disk.pass_append hways, Disk.pass]
  have hshort : ¬ fs.nameMax < nameLength (fs.resolve path ++ [rest]) := by
    rw [nameLength_concat]
    exact Nat.not_lt.mpr hlength
  rw [if_neg hshort, hnone]

/-- What is appended behind a NUL is not looked up. -/
theorem leads_pathAppend_nul (hpath : nul ∈ path)
    (hrest : rest.head? ≠ some '/') :
    fs.leads (pathAppend path rest) d = fs.leads path d := by
  have hread : cPath (pathAppend path rest) = cPath path := by
    unfold pathAppend
    rw [if_neg hrest]
    split <;> exact cPath_append_of_mem hpath _
  have hsegs := segs_pathAppend_nul hpath hrest
  unfold leads through ways lastFits endsAtName endsWithName
  rw [hread, hsegs, start_pathAppend hrest]

-- ------------------------------------------------------ making directories

variable (fs) in
/-- The path can be made a directory's, or is one's. -/
structure Makeable (path : List Char) (d : Disk) : Prop where
  nonempty : cPath path ≠ []
  ways : d.CanMake fs.nameMax (fs.ways path)

variable (fs) in
/-- A directory is made with every place its path comes to, or an
exception thrown when some of them may have been. -/
theorem serve_createDirectories (path : List Char) (d : Disk) :
    (fs.Makeable path d
        ∧ fs.serve (.createDirectories path) d
          = (d.mkdirs (fs.ways path), some ()))
      ∨ (¬ fs.Makeable path d ∧ ∃ made, made <+: fs.ways path
        ∧ fs.serve (.createDirectories path) d
          = (d.mkdirs made, none)) := by
  unfold serve createDirectories
  simp only
  by_cases hnil : cPath path = []
  · rw [if_pos hnil]
    exact Or.inr ⟨fun h => h.nonempty hnil, [], List.nil_prefix, rfl⟩
  · rw [if_neg hnil]
    rcases Disk.make_cases fs.nameMax (fs.ways path) d with
      ⟨hcan, hmade⟩ | ⟨hnot, hpart⟩
    · exact Or.inl ⟨⟨hnil, hcan⟩, hmade⟩
    · exact Or.inr ⟨fun h => hnot h.ways, hpart⟩

/-- What is made is a directory then. -/
theorem Makeable.isDirectory (h : fs.Makeable path d) :
    fs.IsDirectory path (d.mkdirs (fs.ways path)) := by
  refine isDirectory_iff.mpr ⟨h.nonempty, fun way hway => ?_⟩
  obtain ⟨hlength, hfile⟩ := h.ways.of_mem hway
  exact ⟨hlength, Disk.entry_mkdirs_mem hfile hway⟩

/-- Making a directory that is there changes nothing. -/
theorem IsDirectory.mkdirs (h : fs.IsDirectory path d) :
    d.mkdirs (fs.ways path) = d := by
  obtain ⟨-, hways⟩ := isDirectory_iff.mp h
  exact Disk.mkdirs_of_dirs fun way hway => (hways way hway).2

/-- In a directory, making another makes no more than that. -/
theorem IsDirectory.mkdirs_pathAppend (h : fs.IsDirectory path d)
    (hpath : nul ∉ path) (hrest : OrdinaryName rest) :
    d.mkdirs (fs.ways (pathAppend path rest))
      = d.mkdir (fs.resolve path ++ [rest]) := by
  have hsplit : d.mkdirs (fs.ways path ++ [fs.resolve path ++ [rest]])
      = (d.mkdirs (fs.ways path)).mkdir (fs.resolve path ++ [rest]) :=
    List.foldl_append
  rw [ways_pathAppend hpath hrest, hsplit, h.mkdirs]

/-- A directory that is there can be made. -/
theorem IsDirectory.makeable (h : fs.IsDirectory path d) :
    fs.Makeable path d := by
  obtain ⟨hnil, hways⟩ := isDirectory_iff.mp h
  exact ⟨hnil, Disk.canMake_of_dirs hways⟩

/-- In a directory that has not been removed, one can be made under an
ordinary name that is no file's. -/
theorem IsDirectory.makeable_pathAppend (h : fs.IsDirectory path d)
    (hthere : d.entry (fs.resolve path) = some .dir) (hpath : nul ∉ path)
    (hrest : OrdinaryName rest) (hlength : rest.length ≤ fs.nameMax)
    (hfree : d.isFile (fs.resolve path ++ [rest]) = false) :
    fs.Makeable (pathAppend path rest) d := by
  obtain ⟨-, hplaces⟩ := isDirectory_iff.mp h
  refine ⟨cPath_pathAppend_ne hpath hrest, ?_⟩
  rw [ways_pathAppend hpath hrest, Disk.canMake_append, h.mkdirs]
  refine ⟨Disk.canMake_of_dirs hplaces, ?_, hfree, fun _ => ?_, trivial⟩
  · rw [nameLength_concat]
    exact hlength
  · rw [List.dropLast_concat]
    exact hthere

end Paths

-- -------------------------------------------------------- calls served

section Served

variable {fs} {path data : List Char} {d : Disk} {loc : Loc}
  {content : List Char}

theorem serve_directoryIterator (h : fs.IsDirectory path d) :
    fs.serve (.directoryIterator path) d
      = (d, some (fs.order (d.children (fs.resolve path)))) := by
  unfold serve
  simp only
  rw [h.leads]
  simp only
  rw [if_pos h.found]

/-- Only a directory is iterated. -/
theorem serve_directoryIterator_none (h : ¬ fs.IsDirectory path d) :
    fs.serve (.directoryIterator path) d = (d, none) := by
  unfold serve
  simp only
  cases hleads : fs.leads path d with
  | error e => rfl
  | ok u =>
      simp only
      rw [if_neg fun hfound => h ⟨hleads, hfound⟩]

theorem serve_pathExists (hleads : fs.leads path d = .ok ()) :
    fs.serve (.pathExists path) d
      = (d, some (fs.found path d).isSome) := by
  unfold serve
  simp only
  rw [hleads]

theorem serve_isDirectory (hleads : fs.leads path d = .ok ()) :
    fs.serve (.isDirectory path) d
      = (d, some (decide (fs.found path d = some .dir))) := by
  unfold serve
  simp only
  rw [hleads]

theorem serve_openTruncate (hleads : fs.leads path d = .ok ())
    (hname : endsWithName path) :
    fs.serve (.openTruncate path) d = openTruncate (fs.resolve path) d := by
  unfold serve
  simp only
  rw [hleads]
  simp only
  rw [if_pos hname]

/-- A directory is not opened for output. -/
theorem serve_openTruncate_dir (h : fs.IsDirectory path d) :
    fs.serve (.openTruncate path) d = (d, false) := by
  have hfound := h.found
  unfold found at hfound
  unfold serve openTruncate
  simp only
  rw [h.leads]
  simp only
  split
  · next hname =>
    rw [if_pos hname] at hfound
    rw [hfound]
  · rfl

theorem serve_openRead (hleads : fs.leads path d = .ok ()) :
    fs.serve (.openRead path) d = (d, (fs.found path d).isSome) := by
  unfold serve
  simp only
  rw [hleads]

theorem serve_openRead_error {e : Errno}
    (hleads : fs.leads path d = .error e) :
    fs.serve (.openRead path) d = (d, false) := by
  unfold serve
  simp only
  rw [hleads]

theorem serve_remove (hleads : fs.leads path d = .ok ())
    (hname : endsWithName path) :
    fs.serve (.remove path) d = remove (fs.resolve path) d := by
  unfold serve
  simp only
  rw [hleads]
  simp only
  rw [if_pos hname]

/-- A stream reads the content of what is at the location, or
nothing. -/
theorem contents_cases (path : List Char) (d : Disk) :
    fs.contents path d = [] ∨ fs.contents path d
      = d.content (fs.resolve path) := by
  unfold contents
  split
  · exact Or.inr rfl
  · exact Or.inl rfl

/-- No file can be opened for output at the location: there is a
directory, or nothing and no directory to make a file in. -/
def Shut (loc : Loc) (d : Disk) : Prop :=
  d.entry loc = some .dir
    ∨ (d.entry loc = none ∧ d.entry loc.dropLast ≠ some .dir)

theorem openTruncate_of_shut (h : Shut loc d) :
    openTruncate loc d = (d, false) := by
  unfold openTruncate
  rcases h with hdir | ⟨hnone, hparent⟩
  · rw [hdir]
  · rw [hnone]
    simp only
    rw [if_neg fun h => hparent (Disk.isDir_iff.mp h)]

theorem openTruncate_of_not_shut (h : ¬ Shut loc d) :
    openTruncate loc d = (d.put loc (.file []), true) := by
  unfold Shut at h
  rw [not_or, not_and, not_not] at h
  unfold openTruncate
  cases hentry : d.entry loc with
  | none => simp only [if_pos (Disk.isDir_iff.mpr (h.2 hentry))]
  | some e =>
      cases e with
      | dir => exact absurd hentry h.1
      | file content => rfl

/-- A file is there, or can be made: it is opened empty. -/
theorem openTruncate_of_dir (hloc : d.entry loc ≠ some .dir)
    (hdir : d.entry loc.dropLast = some .dir) :
    openTruncate loc d = (d.put loc (.file []), true) := by
  apply openTruncate_of_not_shut
  rintro (hentry | ⟨-, hparent⟩)
  · exact hloc hentry
  · exact hparent hdir

/-- A file that is there is opened. -/
theorem openTruncate_of_file (h : d.isFile loc) :
    openTruncate loc d = (d.put loc (.file []), true) := by
  obtain ⟨content, hfile⟩ := Disk.isFile_iff.mp h
  apply openTruncate_of_not_shut
  unfold Shut
  simp [hfile]

/-- Only where there is no directory is a stream opened. -/
theorem openTruncate_cases (loc : Loc) (d : Disk) :
    openTruncate loc d = (d, false)
      ∨ (d.entry loc ≠ some .dir
        ∧ openTruncate loc d = (d.put loc (.file []), true)) := by
  by_cases hshut : Shut loc d
  · exact Or.inl (openTruncate_of_shut hshut)
  · exact Or.inr ⟨fun hdir => hshut (Or.inl hdir),
      openTruncate_of_not_shut hshut⟩

variable (fs) in
/-- A stream is opened only on what the path leads to and names, where
there is no directory. -/
theorem serve_openTruncate_cases (path : List Char) (d : Disk) :
    fs.serve (.openTruncate path) d = (d, false)
      ∨ (fs.leads path d = .ok () ∧ endsWithName path
        ∧ d.entry (fs.resolve path) ≠ some .dir
        ∧ fs.serve (.openTruncate path) d
          = (d.put (fs.resolve path) (.file []), true)) := by
  cases hleads : fs.leads path d with
  | error e =>
      left
      unfold serve
      simp only
      rw [hleads]
  | ok u =>
      cases hname : endsWithName path with
      | false =>
          left
          unfold serve
          simp only
          rw [hleads, hname]
          rfl
      | true =>
          rw [serve_openTruncate hleads hname]
          rcases openTruncate_cases (fs.resolve path) d with
            hnot | ⟨hentry, hopen⟩
          · exact Or.inl hnot
          · exact Or.inr ⟨rfl, rfl, hentry, hopen⟩

/-- Writing does nothing where there is no file. -/
theorem write_of_not_file (h : d.isFile loc = false) (data : List Char) :
    write loc data d = d := by
  unfold write
  split
  · next content hfile =>
    rw [Disk.isFile_iff.mpr ⟨content, hfile⟩] at h
    cases h
  · rfl

/-- Writing changes the file and nothing else. -/
theorem entry_write_ne {l : Loc} (hl : l ≠ loc) (data : List Char) :
    (write loc data d).entry l = d.entry l := by
  cases hfile : d.isFile loc with
  | false => rw [write_of_not_file hfile]
  | true =>
      obtain ⟨content, hentry⟩ := Disk.isFile_iff.mp hfile
      unfold write
      rw [hentry]
      exact Disk.entry_put_ne (Disk.ne_nil_of_isFile hfile) hl

/-- What is written lies over the old content. -/
theorem entry_write_self (h : d.entry loc = some (.file content))
    (data : List Char) : (write loc data d).entry loc
      = some (.file (data ++ content.drop data.length)) := by
  unfold write
  rw [h]
  exact Disk.entry_put_self
    (Disk.ne_nil_of_isFile (Disk.isFile_iff.mpr ⟨content, h⟩))

/-- Writing makes no files and no directories. -/
theorem isFile_write (loc : Loc) (data : List Char) (d : Disk) (l : Loc) :
    (write loc data d).isFile l = d.isFile l := by
  by_cases hl : l = loc
  · subst hl
    cases hfile : d.isFile l with
    | false => rw [write_of_not_file hfile, hfile]
    | true =>
        obtain ⟨content, hentry⟩ := Disk.isFile_iff.mp hfile
        exact Disk.isFile_iff.mpr ⟨_, entry_write_self hentry data⟩
  · unfold Disk.isFile
    rw [entry_write_ne hl]

/-- A text no shorter than the old content replaces it. -/
theorem entry_write_longer (h : d.entry loc = some (.file content))
    (hlength : content.length ≤ data.length) :
    (write loc data d).entry loc = some (.file data) := by
  rw [entry_write_self h, List.drop_of_length_le hlength, List.append_nil]

/-- A directory stays one when something is written. -/
theorem entry_write_dir {l : Loc} (h : d.entry l = some .dir) (loc : Loc)
    (data : List Char) : (write loc data d).entry l = some .dir := by
  by_cases hl : l = loc
  · subst hl
    rw [write_of_not_file (Disk.isFile_of_dir h), h]
  · rw [entry_write_ne hl, h]

theorem content_of_file (h : d.entry loc = some (.file content)) :
    d.content loc = content := by
  unfold Disk.content
  rw [h]

/-- What is written to an empty file is its content. -/
theorem write_of_empty (h : d.entry loc = some (.file []))
    (data : List Char) :
    write loc data d = d.put loc (.file data) := by
  unfold write
  rw [h]
  simp only [List.drop_nil, List.append_nil]

end Served

end FileSystem

end Creeper.Lib
