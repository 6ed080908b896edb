/-
Hierarchical paths: cutting a path into segments, and walking them.

The alphabet, the separator and the two segments with a meaning (`here`,
which stays, and `up`, which goes to the parent) are parameters. Walking
is lexical: the parent of the top is the top. `entered` lists the places
a walk comes to by a name, which are those a system has to look up.
`collapse` is the coarser reading, which only takes repeated separators
for one.

# Detours

A walk from `base` climbs some levels and then goes down again, and
everything in between cancels out. `detour` computes the two parts
without knowing `base`: how far up, and which way down. `walk_eq_detour`
says that this is all there is to a walk, and `prefix_walk_iff` reads
off when the walk ends below where it began: the way down begins with
the levels of `base` that the way up left.
-/
import Mathlib.Data.List.Basic
import Mathlib.Data.List.Infix
import Mathlib.Data.List.Induction

namespace Creeper.Lib

-- ================================================================ segments

section Segments

variable {α : Type*} [DecidableEq α] (sep : α)

/-- The segments of a path, the first of them begun with `cur`. Empty
segments are left out, so repeated separators are one. -/
def segmentsFrom : List α → List α → List (List α)
  | cur, [] => if cur = [] then [] else [cur]
  | cur, a :: path =>
      if a = sep then
        if cur = [] then segmentsFrom [] path
        else cur :: segmentsFrom [] path
      else segmentsFrom (cur ++ [a]) path

/-- The segments of a path. -/
def segments (path : List α) : List (List α) := segmentsFrom sep [] path

/-- Segments put together to a path. -/
def joinSegments (segs : List (List α)) : List α :=
  segs.flatMap fun seg => sep :: seg

variable {sep}

/-- Symbols other than the separator go to the segment that was
begun. -/
theorem segmentsFrom_append {seg : List α} (h : sep ∉ seg)
    (cur path : List α) :
    segmentsFrom sep cur (seg ++ path) = segmentsFrom sep (cur ++ seg) path
      := by
  induction seg generalizing cur with
  | nil => rw [List.nil_append, List.append_nil]
  | cons a seg ih =>
      have ha : a ≠ sep := fun he => h (by rw [he]; exact List.mem_cons_self ..)
      have hrest := ih (fun hm => h (List.mem_cons_of_mem _ hm)) (cur ++ [a])
      rw [List.cons_append, segmentsFrom, if_neg ha, hrest,
        List.append_assoc, List.singleton_append]

/-- A separator ends the segment that was begun. -/
theorem segmentsFrom_sep {cur : List α} (h : cur ≠ []) (path : List α) :
    segmentsFrom sep cur (sep :: path) = cur :: segments sep path := by
  rw [segmentsFrom, if_pos rfl, if_neg h]
  rfl

/-- A separator in front of a path adds no segment. -/
theorem segments_sep (path : List α) :
    segments sep (sep :: path) = segments sep path := by
  unfold segments
  rw [segmentsFrom, if_pos rfl, if_pos rfl]

/-- A segment that was begun is a segment in front of the path. -/
theorem segmentsFrom_eq {cur : List α} (h : sep ∉ cur) (path : List α) :
    segmentsFrom sep cur path = segments sep (cur ++ path) := by
  unfold segments
  rw [segmentsFrom_append h, List.nil_append]

/-- A separator inside a path ends what comes before it. -/
theorem segments_append_sep (path path' : List α) :
    segments sep (path ++ sep :: path')
      = segments sep path ++ segments sep path' := by
  have hgeneral : ∀ cur, segmentsFrom sep cur (path ++ sep :: path')
      = segmentsFrom sep cur path ++ segments sep path' := by
    induction path with
    | nil =>
        intro cur
        rw [List.nil_append]
        by_cases hcur : cur = []
        · subst hcur
          exact segments_sep path'
        · rw [segmentsFrom_sep hcur, segmentsFrom, if_neg hcur]
          rfl
    | cons a path ih =>
        intro cur
        rw [List.cons_append, segmentsFrom, segmentsFrom]
        split
        · split
          · exact ih []
          · rw [ih [], List.cons_append]
        · exact ih (cur ++ [a])
  exact hgeneral []

/-- A path without separators is one segment. -/
theorem segments_of_not_mem {path : List α} (hne : path ≠ [])
    (h : sep ∉ path) : segments sep path = [path] := by
  have hfrom := segmentsFrom_eq h ([] : List α)
  rw [List.append_nil, segmentsFrom, if_neg hne] at hfrom
  exact hfrom.symm

omit [DecidableEq α] in
/-- What has a separator is what comes before and after the last
one. -/
theorem exists_last_sep {path : List α} (h : sep ∈ path) :
    ∃ dir seg, path = dir ++ sep :: seg ∧ sep ∉ seg := by
  obtain ⟨seg, dir, hcut, hsep⟩ :=
    List.eq_append_cons_of_mem (List.mem_reverse.mpr h)
  refine ⟨dir.reverse, seg.reverse, ?_, ?_⟩
  · rw [← List.reverse_reverse path, hcut]
    simp
  · rwa [List.mem_reverse]

/-- What a segment is made of. -/
theorem mem_segments {path seg : List α} (h : seg ∈ segments sep path) :
    seg ≠ [] ∧ sep ∉ seg ∧ ∀ a ∈ seg, a ∈ path := by
  have hgeneral : ∀ cur, sep ∉ cur → seg ∈ segmentsFrom sep cur path →
      seg ≠ [] ∧ sep ∉ seg ∧ ∀ a ∈ seg, a ∈ cur ∨ a ∈ path := by
    clear h
    induction path with
    | nil =>
        intro cur hcur h
        rw [segmentsFrom] at h
        split at h
        · cases h
        · next hne =>
          obtain rfl := List.mem_singleton.mp h
          exact ⟨hne, hcur, fun a ha => Or.inl ha⟩
    | cons b path ih =>
        intro cur hcur h
        have hnil : seg ∈ segmentsFrom sep [] path → seg ≠ [] ∧ sep ∉ seg
            ∧ ∀ a ∈ seg, a ∈ cur ∨ a ∈ b :: path := by
          intro hmem
          obtain ⟨hne, hsep, hall⟩ := ih [] List.not_mem_nil hmem
          refine ⟨hne, hsep, fun a ha => Or.inr (List.mem_cons_of_mem _ ?_)⟩
          exact (hall a ha).resolve_left List.not_mem_nil
        rw [segmentsFrom] at h
        split at h
        · split at h
          · exact hnil h
          · next hne =>
            rcases List.mem_cons.mp h with rfl | hmem
            · exact ⟨hne, hcur, fun a ha => Or.inl ha⟩
            · exact hnil hmem
        · next hb =>
          have hcurb : sep ∉ cur ++ [b] := by
            intro hmem
            rcases List.mem_append.mp hmem with hin | hin
            · exact hcur hin
            · exact hb (List.mem_singleton.mp hin).symm
          obtain ⟨hne, hsep, hall⟩ := ih (cur ++ [b]) hcurb h
          refine ⟨hne, hsep, fun a ha => ?_⟩
          rcases hall a ha with hin | hin
          · rcases List.mem_append.mp hin with hin | hin
            · exact Or.inl hin
            · rw [List.mem_singleton.mp hin]
              exact Or.inr (List.mem_cons_self ..)
          · exact Or.inr (List.mem_cons_of_mem _ hin)
  obtain ⟨hne, hsep, hall⟩ := hgeneral [] List.not_mem_nil h
  exact ⟨hne, hsep, fun a ha =>
    (hall a ha).resolve_left List.not_mem_nil⟩

/-- Segments that were put together come apart again, the last of them
going on with what follows. -/
theorem segments_join_append {segs : List (List α)} {last : List α}
    (hsegs : ∀ seg ∈ segs, seg ≠ [] ∧ sep ∉ seg) (path : List α) :
    segments sep (joinSegments sep (segs ++ [last]) ++ path)
      = segs ++ segments sep (last ++ path) := by
  induction segs with
  | nil =>
      have hjoin : joinSegments sep ([] ++ [last]) ++ path
          = sep :: (last ++ path) := by
        simp [joinSegments]
      rw [hjoin, segments_sep, List.nil_append]
  | cons seg segs ih =>
      obtain ⟨hne, hsep⟩ := hsegs seg (List.mem_cons_self ..)
      have hrest := ih fun s hs => hsegs s (List.mem_cons_of_mem _ hs)
      have hjoin : joinSegments sep (seg :: segs ++ [last]) ++ path
          = sep :: (seg ++ (joinSegments sep (segs ++ [last]) ++ path)) := by
        simp [joinSegments]
      -- what follows the segment begins with a separator
      obtain ⟨tail, htail⟩ : ∃ tail,
          joinSegments sep (segs ++ [last]) ++ path = sep :: tail := by
        cases segs with
        | nil => exact ⟨last ++ path, by simp [joinSegments]⟩
        | cons s segs => exact ⟨_, by simp [joinSegments]; rfl⟩
      rw [hjoin, segments_sep, htail, ← segmentsFrom_eq hsep,
        segmentsFrom_sep hne, ← segments_sep tail, ← htail, hrest,
        List.cons_append]

/-- The path with each run of separators made one. -/
def collapse (sep : α) : List α → List α
  | a :: b :: path =>
      if a = sep ∧ b = sep then collapse sep (b :: path)
      else a :: collapse sep (b :: path)
  | path => path

/-- Two paths collapse apart where no run of separators goes on from one
into the other. -/
theorem collapse_append {path path' : List α}
    (h : path.getLast? ≠ some sep ∨ path'.head? ≠ some sep) :
    collapse sep (path ++ path')
      = collapse sep path ++ collapse sep path' := by
  induction path with
  | nil => rfl
  | cons a path ih =>
      cases path with
      | nil =>
          cases path' with
          | nil => rfl
          | cons b path' =>
              have hboth : ¬ (a = sep ∧ b = sep) := by
                intro hex
                obtain ⟨rfl, rfl⟩ := hex
                simp at h
              rw [List.singleton_append, collapse, if_neg hboth]
              rfl
      | cons b path =>
          have hrest := ih (by rwa [List.getLast?_cons_cons] at h)
          rw [List.cons_append, List.cons_append, collapse, collapse,
            ← List.cons_append, hrest]
          split <;> rfl

/-- A separator behind a separator collapses. -/
theorem collapse_sep_sep (path path' : List α) :
    collapse sep (path ++ sep :: sep :: path')
      = collapse sep (path ++ sep :: path') := by
  induction path with
  | nil => rw [List.nil_append, collapse, if_pos ⟨rfl, rfl⟩]; rfl
  | cons a path ih =>
      cases path with
      | nil => simp only [List.singleton_append, collapse, and_true,
          if_true]
      | cons b path =>
          simp only [List.cons_append, collapse] at ih ⊢
          rw [ih]

end Segments

-- =================================================================== walks

section Walks

variable {N : Type*} [DecidableEq N] (here up : N)

/-- One segment of a walk. -/
def enter (at_ : List N) (seg : N) : List N :=
  if seg = here then at_
  else if seg = up then at_.dropLast
  else at_ ++ [seg]

/-- Where the segments lead from a place. -/
def walk (base segs : List N) : List N := segs.foldl (enter here up) base

/-- The places a walk comes to by a name, in order. -/
def entered : List N → List N → List (List N)
  | _, [] => []
  | base, seg :: segs =>
      if seg = here ∨ seg = up then entered (enter here up base seg) segs
      else (base ++ [seg]) :: entered (base ++ [seg]) segs

/-- One segment of a detour: up when there is no way down to take back,
else along the way down. -/
def detourStep (d : Nat × List N) (seg : N) : Nat × List N :=
  if seg = here then d
  else if seg = up then
    if d.2 = [] then (d.1 + 1, []) else (d.1, d.2.dropLast)
  else (d.1, d.2 ++ [seg])

/-- How many levels the segments lead up, and the way down from
there. -/
def detour (segs : List N) : Nat × List N :=
  segs.foldl (detourStep here up) (0, [])

/-- Where a detour ends. -/
def afterDetour (base : List N) (d : Nat × List N) : List N :=
  base.take (base.length - d.1) ++ d.2

variable {here up}

/-- One segment more is one segment more of the walk. -/
theorem enter_afterDetour (base : List N) (d : Nat × List N) (seg : N) :
    enter here up (afterDetour base d) seg
      = afterDetour base (detourStep here up d seg) := by
  obtain ⟨climb, down⟩ := d
  unfold enter detourStep afterDetour
  split
  · rfl
  · split
    · split
      · next hdown =>
        obtain rfl : down = [] := hdown
        show (base.take (base.length - climb) ++ []).dropLast
          = base.take (base.length - (climb + 1)) ++ []
        rw [List.append_nil, List.append_nil, List.dropLast_eq_take,
          List.take_take, List.length_take]
        congr 1
        omega
      · next hdown => exact List.dropLast_append_of_ne_nil hdown
    · exact List.append_assoc ..

/-- A walk is its detour. -/
theorem walk_eq_detour (base segs : List N) :
    walk here up base segs = afterDetour base (detour here up segs) := by
  have hgeneral : ∀ d, segs.foldl (enter here up) (afterDetour base d)
      = afterDetour base (segs.foldl (detourStep here up) d) := by
    induction segs with
    | nil => exact fun d => rfl
    | cons seg segs ih =>
        intro d
        rw [List.foldl_cons, List.foldl_cons, enter_afterDetour, ih]
  have hstart : afterDetour base (0, []) = base := by
    unfold afterDetour
    rw [List.append_nil, Nat.sub_zero, List.take_length]
  have hwalk := hgeneral (0, [])
  rw [hstart] at hwalk
  exact hwalk

/-- A walk ends at or below its base exactly when its way down begins
with the levels of the base that its way up left. -/
theorem prefix_walk_iff (base segs : List N) :
    base <+: walk here up base segs
      ↔ base.drop (base.length - (detour here up segs).1)
        <+: (detour here up segs).2 := by
  rw [walk_eq_detour]
  unfold afterDetour
  generalize base.length - (detour here up segs).1 = kept
  generalize (detour here up segs).2 = down
  calc base <+: base.take kept ++ down
      ↔ base.take kept ++ base.drop kept <+: base.take kept ++ down := by
        rw [List.take_append_drop]
    _ ↔ base.drop kept <+: down := List.prefix_append_right_inj _

/-- A name is a level down. -/
theorem enter_name {seg : N} (hhere : seg ≠ here) (hup : seg ≠ up)
    (base : List N) : enter here up base seg = base ++ [seg] := by
  unfold enter
  rw [if_neg hhere, if_neg hup]

/-- Names lead down. -/
theorem walk_names {segs : List N} (h : ∀ seg ∈ segs, seg ≠ here ∧ seg ≠ up)
    (base : List N) : walk here up base segs = base ++ segs := by
  unfold walk
  induction segs generalizing base with
  | nil => exact (List.append_nil base).symm
  | cons seg segs ih =>
      obtain ⟨hhere, hup⟩ := h seg (List.mem_cons_self ..)
      rw [List.foldl_cons, enter_name hhere hup,
        ih fun s hs => h s (List.mem_cons_of_mem _ hs), List.append_assoc,
        List.singleton_append]

/-- Walks compose. -/
theorem walk_append (base segs segs' : List N) :
    walk here up base (segs ++ segs')
      = walk here up (walk here up base segs) segs' :=
  List.foldl_append

/-- A walk that goes on comes to what the rest of it comes to. -/
theorem entered_append (base segs segs' : List N) :
    entered here up base (segs ++ segs')
      = entered here up base segs
        ++ entered here up (walk here up base segs) segs' := by
  induction segs generalizing base with
  | nil => rfl
  | cons seg segs ih =>
      have hwalk : walk here up base (seg :: segs)
          = walk here up (enter here up base seg) segs := rfl
      rw [List.cons_append, entered, entered, hwalk]
      split
      · exact ih _
      · next hname =>
        rw [not_or] at hname
        rw [ih, enter_name hname.1 hname.2, List.cons_append]

/-- A walk that ends with a name comes to its end last. -/
theorem entered_concat {seg : N} (hhere : seg ≠ here) (hup : seg ≠ up)
    (base segs : List N) :
    entered here up base (segs ++ [seg])
      = entered here up base segs ++ [walk here up base segs ++ [seg]] := by
  rw [entered_append, entered, if_neg (not_or.mpr ⟨hhere, hup⟩), entered]

/-- The names a walk ends with beyond its base are segments of it. -/
theorem mem_of_walk_eq_append (base : List N) {segs beyond : List N}
    (h : walk here up base segs = base ++ beyond) {n : N}
    (hn : n ∈ beyond) : n ∈ segs := by
  induction segs using List.reverseRecOn generalizing beyond with
  | nil =>
      have hnil : beyond = [] := List.self_eq_append_right.mp h
      rw [hnil] at hn
      cases hn
  | append_singleton segs seg ih =>
      have hlast : enter here up (walk here up base segs) seg
          = base ++ beyond := by
        rw [walk_append] at h
        exact h
      unfold enter at hlast
      split at hlast
      · exact List.mem_append_left _ (ih hlast hn)
      · split at hlast
        · -- the level that was left lay beyond the base as well
          have hne : walk here up base segs ≠ [] := by
            intro hnil
            rw [hnil] at hlast
            have hempty := List.append_eq_nil_iff.mp hlast.symm
            rw [hempty.2] at hn
            cases hn
          have hwalk := List.dropLast_append_getLast hne
          rw [hlast, List.append_assoc] at hwalk
          exact List.mem_append_left _
            (ih hwalk.symm (List.mem_append_left _ hn))
        · rcases List.eq_nil_or_concat beyond with rfl | ⟨init, last, rfl⟩
          · cases hn
          · rw [List.concat_eq_append, ← List.append_assoc] at hlast
            obtain ⟨hinit, hseg⟩ := List.append_singleton_inj.mp hlast
            rw [List.concat_eq_append] at hn
            rcases List.mem_append.mp hn with hin | hin
            · exact List.mem_append_left _ (ih hinit hin)
            · rw [List.mem_singleton.mp hin, ← hseg]
              exact List.mem_append_right _ (List.mem_singleton_self _)

end Walks

end Creeper.Lib
