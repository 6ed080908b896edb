/-
What a disk has, and going through it.

A `Disk` says what is at each location: nothing, a directory, or a file
with its content. The root is always a directory, and there are no links.

A program comes to a location through others. To go through places, each
has to be a directory (`pass`); to make places is to make a directory
wherever there is nothing, from the left, so what has been made stays
when it fails (`make`, `CanMake`). Neither takes a name that is too long.
-/
import Mathlib.Data.List.Infix
import Mathlib.Data.List.Nodup
import Mathlib.Data.List.Perm.Basic

namespace Creeper.Lib

-- ================================================================ the disk

/-- A place in the tree: the names from the root down to it. -/
abbrev Loc := List (List Char)

/-- What can be at a location. -/
inductive Entry
  | file (content : List Char)
  | dir
  deriving DecidableEq

/-- It is a regular file. -/
def Entry.isFile : Entry → Bool
  | .file _ => true
  | .dir => false

/-- The entries below the root. -/
structure Disk where
  entries : Std.TreeMap Loc Entry

/-- What iterating a directory says of one entry. -/
structure DirEntry where
  name : List Char
  regular : Bool
  deriving DecidableEq

namespace Disk

/-- The root directory and nothing in it. -/
def empty : Disk := ⟨∅⟩

/-- What is at a location. -/
def entry (d : Disk) (loc : Loc) : Option Entry :=
  if loc = [] then some .dir else d.entries[loc]?

/-- Put an entry at a location, over what is there. -/
def put (d : Disk) (loc : Loc) (e : Entry) : Disk :=
  ⟨d.entries.insert loc e⟩

/-- Take the entry of a location away. -/
def drop (d : Disk) (loc : Loc) : Disk := ⟨d.entries.erase loc⟩

/-- There is a file at the location. -/
def isFile (d : Disk) (loc : Loc) : Bool := (d.entry loc).any Entry.isFile

/-- There is a directory at the location. -/
def isDir (d : Disk) (loc : Loc) : Bool := d.entry loc = some .dir

/-- Where there is nothing, a directory. -/
def mkdir (d : Disk) (loc : Loc) : Disk :=
  if (d.entry loc).isSome then d else d.put loc .dir

/-- Each location that has nothing becomes a directory. -/
def mkdirs (d : Disk) (ways : List Loc) : Disk := ways.foldl mkdir d

/-- The entry with this key, if it is directly in the directory. -/
def childOf (dir : Loc) (e : Loc × Entry) : Option DirEntry :=
  match e.1.getLast? with
  | none => none
  | some name =>
      if e.1.dropLast = dir then some ⟨name, e.2.isFile⟩ else none

/-- What is directly in a directory. -/
def children (d : Disk) (dir : Loc) : List DirEntry :=
  d.entries.toList.filterMap (childOf dir)

/-- What a stream opened at the location reads. -/
def content (d : Disk) (loc : Loc) : List Char :=
  match d.entry loc with
  | some (.file content) => content
  | _ => []

-- --------------------------------------------------------------- lookups

variable {d : Disk} {loc l dir : Loc} {e : Entry} {name : List Char}

@[simp] theorem entry_nil (d : Disk) : d.entry [] = some .dir := by
  unfold entry
  rw [if_pos rfl]

theorem entry_empty (h : loc ≠ []) : empty.entry loc = none := by
  unfold entry empty
  rw [if_neg h]
  exact Std.TreeMap.getElem?_emptyc

theorem entry_put (h : loc ≠ []) (l : Loc) :
    (d.put loc e).entry l = if l = loc then some e else d.entry l := by
  unfold entry put
  by_cases hl : l = loc
  · subst hl
    rw [if_neg h, if_pos rfl]
    exact Std.TreeMap.getElem?_insert_self
  · have hne : ¬ compare loc l = .eq := fun heq =>
      hl (Std.LawfulEqOrd.eq_of_compare heq).symm
    rw [if_neg hl, Std.TreeMap.getElem?_insert, if_neg hne]

theorem entry_put_self (h : loc ≠ []) : (d.put loc e).entry loc = some e := by
  rw [entry_put h, if_pos rfl]

theorem entry_put_ne (h : loc ≠ []) (hl : l ≠ loc) :
    (d.put loc e).entry l = d.entry l := by
  rw [entry_put h, if_neg hl]

theorem entry_drop (h : loc ≠ []) (l : Loc) :
    (d.drop loc).entry l = if l = loc then none else d.entry l := by
  unfold entry drop
  by_cases hl : l = loc
  · subst hl
    rw [if_neg h, if_pos rfl]
    exact Std.TreeMap.getElem?_erase_self
  · have hne : ¬ compare loc l = .eq := fun heq =>
      hl (Std.LawfulEqOrd.eq_of_compare heq).symm
    rw [if_neg hl, Std.TreeMap.getElem?_erase, if_neg hne]

/-- What is there need not be made. -/
theorem mkdir_of_some (h : d.entry loc = some e) : d.mkdir loc = d := by
  unfold mkdir
  rw [h]
  rfl

/-- A new directory does not replace anything. -/
theorem entry_mkdir (d : Disk) (loc l : Loc) :
    (d.mkdir loc).entry l
      = (d.entry l).or (if l = loc then some .dir else none) := by
  cases hloc : d.entry loc with
  | some e =>
      rw [mkdir_of_some hloc]
      by_cases hl : l = loc
      · rw [hl, hloc]
        rfl
      · rw [if_neg hl, Option.or_none]
  | none =>
      have hne : loc ≠ [] := by
        intro heq
        rw [heq, entry_nil] at hloc
        cases hloc
      unfold mkdir
      rw [hloc]
      by_cases hl : l = loc
      · rw [hl, if_pos rfl, hloc]
        exact entry_put_self hne
      · rw [if_neg hl, Option.or_none]
        exact entry_put_ne hne hl

theorem entry_mkdirs (d : Disk) (ways : List Loc) (l : Loc) :
    (d.mkdirs ways).entry l
      = (d.entry l).or (if l ∈ ways then some .dir else none) := by
  unfold mkdirs
  induction ways generalizing d with
  | nil => simp
  | cons way ways ih =>
      rw [List.foldl_cons, ih, entry_mkdir, Option.or_assoc]
      by_cases hl : l = way
      · simp [hl]
      · simp [hl]

/-- An entry stays what it is when directories are made. -/
theorem entry_mkdirs_some (h : d.entry l = some e) (ways : List Loc) :
    (d.mkdirs ways).entry l = some e := by
  rw [entry_mkdirs, h]
  rfl

/-- Directories that are there need not be made. -/
theorem mkdirs_of_dirs {ways : List Loc}
    (h : ∀ way ∈ ways, d.entry way = some .dir) : d.mkdirs ways = d := by
  induction ways with
  | nil => rfl
  | cons way ways ih =>
      unfold mkdirs
      rw [List.foldl_cons, mkdir_of_some (h way (List.mem_cons_self ..))]
      exact ih fun w hw => h w (List.mem_cons_of_mem _ hw)

theorem isFile_iff :
    d.isFile loc ↔ ∃ content, d.entry loc = some (.file content) := by
  unfold isFile
  cases d.entry loc with
  | none => simp
  | some e => cases e <;> simp [Entry.isFile]

theorem isDir_iff : d.isDir loc ↔ d.entry loc = some .dir := by
  unfold isDir
  rw [decide_eq_true_iff]

/-- Making directories makes no files. -/
theorem isFile_mkdirs (d : Disk) (ways : List Loc) (l : Loc) :
    (d.mkdirs ways).isFile l = d.isFile l := by
  unfold isFile
  rw [entry_mkdirs]
  cases d.entry l with
  | none => split <;> rfl
  | some e => rfl

/-- Making directories changes no file. -/
theorem entry_mkdirs_file (ways : List Loc) (l : Loc)
    (content : List Char) :
    (d.mkdirs ways).entry l = some (.file content)
      ↔ d.entry l = some (.file content) := by
  rw [entry_mkdirs]
  cases d.entry l with
  | none => split <;> simp
  | some e => rfl

/-- The root is a directory. -/
theorem ne_nil_of_not_dir (h : d.entry loc ≠ some .dir) : loc ≠ [] := by
  intro heq
  subst heq
  exact h (entry_nil d)

/-- A location with a file is below the root. -/
theorem ne_nil_of_isFile (h : d.isFile loc) : loc ≠ [] := by
  intro heq
  subst heq
  obtain ⟨content, hfile⟩ := isFile_iff.mp h
  rw [entry_nil] at hfile
  cases hfile

/-- A directory that is made is there, where there was no file. -/
theorem entry_mkdirs_mem {ways : List Loc} (h : d.isFile l = false)
    (hl : l ∈ ways) : (d.mkdirs ways).entry l = some .dir := by
  rw [entry_mkdirs, if_pos hl]
  unfold isFile at h
  cases hentry : d.entry l with
  | none => rfl
  | some e =>
      cases e with
      | dir => rfl
      | file content =>
          rw [hentry] at h
          cases h

/-- A directory is no file. -/
theorem isFile_of_dir (h : d.entry loc = some .dir) :
    d.isFile loc = false := by
  unfold isFile
  rw [h]
  rfl

/-- Every directory of one disk is one of another. -/
def DirsKept (d d' : Disk) : Prop :=
  ∀ l, d.entry l = some .dir → d'.entry l = some .dir

theorem dirsKept_mkdirs (d : Disk) (ways : List Loc) :
    DirsKept d (d.mkdirs ways) :=
  fun _ h => entry_mkdirs_some h ways

/-- What is put where no directory is keeps the directories. -/
theorem dirsKept_put (h : d.entry loc ≠ some .dir) (e : Entry) :
    DirsKept d (d.put loc e) := by
  intro l hl
  rw [entry_put_ne (ne_nil_of_not_dir h)]
  · exact hl
  · intro heq
    subst heq
    exact h hl

/-- What is taken away and is no directory leaves the directories. -/
theorem dirsKept_drop (h : d.entry loc ≠ some .dir) :
    DirsKept d (d.drop loc) := by
  intro l hl
  rw [entry_drop (ne_nil_of_not_dir h), if_neg]
  · exact hl
  · intro heq
    subst heq
    exact h hl

-- -------------------------------------------------------------- children

theorem childOf_eq_some_iff {e : Loc × Entry} {c : DirEntry} :
    childOf dir e = some c
      ↔ e.1 = dir ++ [c.name] ∧ c.regular = e.2.isFile := by
  obtain ⟨l, e⟩ := e
  obtain ⟨name, regular⟩ := c
  unfold childOf
  cases hlast : l.getLast? with
  | none =>
      obtain rfl : l = [] := List.getLast?_eq_none_iff.mp hlast
      simp
  | some last =>
      obtain ⟨init, rfl⟩ := List.getLast?_eq_some_iff.mp hlast
      simp only [List.dropLast_concat, List.append_singleton_inj]
      split
      · next hdir => simp [hdir, eq_comm]
      · next hdir => simp [hdir]

theorem mem_children {c : DirEntry} :
    c ∈ d.children dir
      ↔ ∃ e, d.entry (dir ++ [c.name]) = some e ∧ c.regular = e.isFile := by
  unfold children
  rw [List.mem_filterMap]
  constructor
  · intro h
    obtain ⟨⟨l, e⟩, hmem, hchild⟩ := h
    obtain ⟨hl, hregular⟩ := childOf_eq_some_iff.mp hchild
    have hget := Std.TreeMap.mem_toList_iff_getElem?_eq_some.mp hmem
    refine ⟨e, ?_, hregular⟩
    unfold entry
    rw [if_neg (by simp), ← hl]
    exact hget
  · intro h
    obtain ⟨e, hentry, hregular⟩ := h
    unfold entry at hentry
    rw [if_neg (by simp)] at hentry
    exact ⟨(dir ++ [c.name], e),
      Std.TreeMap.mem_toList_iff_getElem?_eq_some.mpr hentry,
      childOf_eq_some_iff.mpr ⟨rfl, hregular⟩⟩

/-- No name is in a directory twice. -/
theorem children_nodup (d : Disk) (dir : Loc) :
    ((d.children dir).map DirEntry.name).Nodup := by
  unfold children List.Nodup
  rw [List.pairwise_map, List.pairwise_filterMap]
  refine Std.TreeMap.distinct_keys_toList.imp ?_
  intro e e' hkeys c hc c' hc' hname
  apply hkeys
  rw [(childOf_eq_some_iff.mp hc).1, (childOf_eq_some_iff.mp hc').1, hname]
  exact Std.ReflOrd.compare_self

end Disk

-- ======================================================= ways through a disk

/-- Why a path leads nowhere. -/
inductive Errno
  | noEntry
  | notDirectory
  | nameTooLong
  deriving DecidableEq

/-- How long the name of a location is. -/
def nameLength (loc : Loc) : Nat := (loc.getLast?.getD []).length

@[simp] theorem nameLength_concat (loc : Loc) (name : List Char) :
    nameLength (loc ++ [name]) = name.length := by
  unfold nameLength
  rw [List.getLast?_concat]
  rfl

namespace Disk

/-- Going through places in order: each has to be a directory, and its
name not too long. -/
def pass (d : Disk) (max : Nat) : List Loc → Except Errno Unit
  | [] => .ok ()
  | way :: ways =>
      if max < nameLength way then .error .nameTooLong
      else
        match d.entry way with
        | none => .error .noEntry
        | some (.file _) => .error .notDirectory
        | some .dir => d.pass max ways

/-- Making places in order, those that are there being passed: it fails
at the first whose name is too long, that is a file, or that has no
directory to be made in. -/
def make (max : Nat) : List Loc → Disk → Disk × Option Unit
  | [], d => (d, some ())
  | way :: ways, d =>
      if max < nameLength way then (d, none)
      else if d.isFile way then (d, none)
      else if d.entry way = none ∧ d.isDir way.dropLast = false then (d, none)
      else make max ways (d.mkdir way)

/-- Each of the places, in order, is a directory or can be made one: its
name is not too long, it is not a file, and there is a directory to make
it in. -/
def CanMake (max : Nat) (d : Disk) : List Loc → Prop
  | [] => True
  | way :: ways =>
      nameLength way ≤ max ∧ d.isFile way = false
        ∧ (d.entry way = none → d.entry way.dropLast = some .dir)
        ∧ CanMake max (d.mkdir way) ways

variable {d d' : Disk} {max : Nat} {way : Loc} {ways ways' : List Loc}

theorem pass_eq_ok_iff :
    d.pass max ways = .ok ()
      ↔ ∀ way ∈ ways, nameLength way ≤ max ∧ d.entry way = some .dir := by
  induction ways with
  | nil => simp [pass]
  | cons way ways ih =>
      rw [List.forall_mem_cons, ← ih, pass]
      by_cases hlong : max < nameLength way
      · rw [if_pos hlong]
        exact iff_of_false (by simp) fun h => by omega
      · rw [if_neg hlong]
        cases hentry : d.entry way with
        | none => simp
        | some e =>
            cases e with
            | file content => simp
            | dir => simp [Nat.le_of_not_lt hlong]

/-- Directories in front are passed. -/
theorem pass_append
    (h : ∀ way ∈ ways, nameLength way ≤ max ∧ d.entry way = some .dir)
    (ways' : List Loc) : d.pass max (ways ++ ways') = d.pass max ways' := by
  induction ways with
  | nil => rfl
  | cons way ways ih =>
      obtain ⟨hlength, hdir⟩ := h way (List.mem_cons_self ..)
      rw [List.cons_append, pass, if_neg (by omega), hdir]
      exact ih fun w hw => h w (List.mem_cons_of_mem _ hw)

/-- Making fails with the first places made, or makes them all. -/
theorem make_cases (max : Nat) (ways : List Loc) (d : Disk) :
    (d.CanMake max ways ∧ make max ways d = (d.mkdirs ways, some ()))
      ∨ (¬ d.CanMake max ways ∧ ∃ made, made <+: ways
        ∧ make max ways d = (d.mkdirs made, none)) := by
  induction ways generalizing d with
  | nil => exact Or.inl ⟨trivial, rfl⟩
  | cons way ways ih =>
      have hnone : ∃ made, made <+: way :: ways
          ∧ (d, none) = (d.mkdirs made, (none : Option Unit)) :=
        ⟨[], List.nil_prefix, rfl⟩
      unfold make CanMake
      by_cases hlong : max < nameLength way
      · rw [if_pos hlong]
        exact Or.inr ⟨fun h => by omega, hnone⟩
      · rw [if_neg hlong]
        by_cases hfile : d.isFile way
        · rw [if_pos hfile]
          exact Or.inr ⟨fun h => by simp [hfile] at h, hnone⟩
        · rw [if_neg hfile]
          by_cases hparent : d.entry way = none ∧ d.isDir way.dropLast = false
          · rw [if_pos hparent]
            refine Or.inr ⟨fun h => ?_, hnone⟩
            have hdir := isDir_iff.mpr (h.2.2.1 hparent.1)
            rw [hparent.2] at hdir
            cases hdir
          · rw [if_neg hparent]
            have hway : nameLength way ≤ max ∧ d.isFile way = false
                ∧ (d.entry way = none → d.entry way.dropLast = some .dir) := by
              refine ⟨by omega, (Bool.not_eq_true _).mp hfile, fun h => ?_⟩
              by_contra hnot
              have hfalse : d.isDir way.dropLast = false := by
                rw [← Bool.not_eq_true, isDir_iff]
                exact hnot
              exact hparent ⟨h, hfalse⟩
            rcases ih (d.mkdir way) with ⟨hcan, hmade⟩ |
              ⟨hnot, made, hpre, hmade⟩
            · exact Or.inl ⟨⟨hway.1, hway.2.1, hway.2.2, hcan⟩, hmade⟩
            · refine Or.inr ⟨fun h => hnot h.2.2.2, way :: made, ?_, hmade⟩
              exact List.cons_prefix_cons.mpr ⟨rfl, hpre⟩

/-- What can be made is no file, and has no name that is too long. -/
theorem CanMake.of_mem (h : d.CanMake max ways) (hway : way ∈ ways) :
    nameLength way ≤ max ∧ d.isFile way = false := by
  induction ways generalizing d with
  | nil => cases hway
  | cons w ways ih =>
      obtain ⟨hlength, hfile, -, hrest⟩ := h
      rcases List.mem_cons.mp hway with rfl | hway
      · exact ⟨hlength, hfile⟩
      · have hkept : (d.mkdir w).isFile way = d.isFile way :=
          isFile_mkdirs d [w] way
        rw [← hkept]
        exact ih hrest hway

theorem canMake_append :
    d.CanMake max (ways ++ ways')
      ↔ d.CanMake max ways ∧ (d.mkdirs ways).CanMake max ways' := by
  induction ways generalizing d with
  | nil => exact (and_iff_right trivial).symm
  | cons way ways ih =>
      rw [List.cons_append, CanMake, CanMake, ih, and_assoc, and_assoc,
        and_assoc]
      rfl

/-- Nothing has to be made where every place is a directory. -/
theorem canMake_of_dirs
    (h : ∀ way ∈ ways, nameLength way ≤ max ∧ d.entry way = some .dir) :
    d.CanMake max ways := by
  induction ways generalizing d with
  | nil => trivial
  | cons way ways ih =>
      obtain ⟨hlength, hdir⟩ := h way (List.mem_cons_self ..)
      refine ⟨hlength, isFile_of_dir hdir, fun hnone => ?_, ih ?_⟩
      · rw [hdir] at hnone
        cases hnone
      · intro w hw
        obtain ⟨hlength', hdir'⟩ := h w (List.mem_cons_of_mem _ hw)
        exact ⟨hlength', dirsKept_mkdirs d [way] w hdir'⟩

end Disk

end Creeper.Lib
