/-
Lines ended by a two-symbol break, and blocks of lines ended by an
empty one.

The alphabet and the two symbols of the break are parameters; the only
assumption, where one is needed, is that the two differ. A reader cuts
at the FIRST break, so what it returns is decided by the symbols read
so far: `cutLine_append_right` and `cutBlock_append_right` say that
more input never changes a line or a block that was already complete,
which is what makes framing independent of how a stream was delivered.

`cutBlock_render` is the round trip: nonempty lines without a break,
written one after another and closed by an empty line, read back as
those lines and leave the rest of the stream untouched.
-/
import Mathlib.Data.List.Basic
import Mathlib.Data.List.Infix

namespace Creeper.Lib

variable {α : Type*} [DecidableEq α] (cr lf : α)

-- ============================================================ one line

/-- The symbols before the first break, and those after it. -/
def cutLine : List α → Option (List α × List α)
  | [] => none
  | a :: rest =>
      if a = cr ∧ rest.head? = some lf then some ([], rest.tail)
      else (cutLine rest).map fun p => (a :: p.1, p.2)

variable {cr lf}

omit [DecidableEq α] in
/-- A line that continues past a symbol has no break in what follows
it. -/
theorem not_infix_of_cons {a : α} {l : List α}
    (h : ¬ [cr, lf] <:+: a :: l) : ¬ [cr, lf] <:+: l :=
  fun hl => h (List.infix_cons hl)

/-- A line without a break is cut at the break that ends it. -/
theorem cutLine_append (hne : cr ≠ lf) {l : List α}
    (h : ¬ [cr, lf] <:+: l) (r : List α) :
    cutLine cr lf (l ++ cr :: lf :: r) = some (l, r) := by
  induction l with
  | nil => simp [cutLine]
  | cons a l ih =>
      have hcond : ¬ (a = cr ∧ (l ++ cr :: lf :: r).head? = some lf) := by
        intro hcut
        obtain ⟨rfl, hhead⟩ := hcut
        cases l with
        | nil => exact hne (by simpa using hhead)
        | cons b l =>
            have hb : b = lf := by simpa using hhead
            subst hb
            exact h ⟨[], l, rfl⟩
      rw [List.cons_append, cutLine, if_neg hcond,
        ih (not_infix_of_cons h)]
      rfl

/-- What was cut: the line, the break, the rest; and the line has no
break of its own. -/
theorem cutLine_eq_some {s l r : List α} (h : cutLine cr lf s = some (l, r)) :
    s = l ++ cr :: lf :: r ∧ ¬ [cr, lf] <:+: l := by
  induction s generalizing l with
  | nil => cases h
  | cons a s ih =>
      rw [cutLine] at h
      split at h
      · next hc =>
        obtain ⟨rfl, hhead⟩ := hc
        cases h
        cases s with
        | nil => cases hhead
        | cons b s =>
            have hb : b = lf := by simpa using hhead
            subst hb
            exact ⟨rfl, by simp⟩
      · next hc =>
        obtain ⟨⟨l', r'⟩, hcut, heq⟩ := Option.map_eq_some_iff.mp h
        cases heq
        obtain ⟨rfl, hl⟩ := ih hcut
        refine ⟨rfl, fun hin => ?_⟩
        rcases List.infix_cons_iff.mp hin with hpre | hin
        · -- a break at the head of the line would have been the cut
          obtain ⟨t, ht⟩ := hpre
          obtain ⟨rfl, rfl⟩ : cr = a ∧ lf :: t = l' := by
            simpa using ht
          exact hc ⟨rfl, rfl⟩
        · exact hl hin

/-- A complete line stays as it is when more symbols arrive. -/
theorem cutLine_append_right {s l r : List α}
    (h : cutLine cr lf s = some (l, r)) (t : List α) :
    cutLine cr lf (s ++ t) = some (l, r ++ t) := by
  induction s generalizing l with
  | nil => cases h
  | cons a s ih =>
      rw [cutLine] at h
      rw [List.cons_append, cutLine]
      split at h
      · next hc =>
        cases h
        cases s with
        | nil => cases hc.2
        | cons b s => rw [if_pos (by simpa using hc)]; rfl
      · next hc =>
        obtain ⟨⟨l', r'⟩, hcut, heq⟩ := Option.map_eq_some_iff.mp h
        cases heq
        cases s with
        | nil => cases hcut
        | cons b s =>
            rw [if_neg (by simpa using hc), ih hcut]
            rfl

/-- Cutting a line consumes it. -/
theorem cutLine_length {s l r : List α} (h : cutLine cr lf s = some (l, r)) :
    r.length < s.length := by
  obtain ⟨rfl, -⟩ := cutLine_eq_some h
  simp only [List.length_append, List.length_cons]
  omega

-- =========================================================== blocks of lines

variable (cr lf) in
/-- The lines up to the first empty one, and what comes after it. -/
def cutBlock (s : List α) : Option (List (List α) × List α) :=
  match _h : cutLine cr lf s with
  | none => none
  | some ([], r) => some ([], r)
  | some (a :: l, r) => (cutBlock r).map fun p => ((a :: l) :: p.1, p.2)
termination_by s.length
decreasing_by exact cutLine_length _h

/-- The empty line ends the block. -/
theorem cutBlock_end {s r : List α} (h : cutLine cr lf s = some ([], r)) :
    cutBlock cr lf s = some ([], r) := by
  rw [cutBlock]
  split
  · next h' => rw [h] at h'; cases h'
  · next h' => rw [h] at h'; cases h'; rfl
  · next h' => rw [h] at h'; cases h'

/-- A line that is not empty goes on top of the block after it. -/
theorem cutBlock_line {s l r : List α} (hl : l ≠ [])
    (h : cutLine cr lf s = some (l, r)) :
    cutBlock cr lf s = (cutBlock cr lf r).map fun p => (l :: p.1, p.2) := by
  rw [cutBlock]
  split
  · next h' => rw [h] at h'; cases h'
  · next h' => rw [h] at h'; cases h'; exact absurd rfl hl
  · next h' => rw [h] at h'; cases h'; rfl

/-- A block without a line is an empty line. -/
theorem cutLine_of_cutBlock_nil {s r : List α}
    (h : cutBlock cr lf s = some ([], r)) :
    cutLine cr lf s = some ([], r) := by
  rw [cutBlock] at h
  split at h
  · cases h
  · next h' =>
    cases h
    exact h'
  · obtain ⟨p, -, hp⟩ := Option.map_eq_some_iff.mp h
    cases hp

/-- The first line of a block is on top of another block. -/
theorem cutBlock_cons {s r l : List α} {ls : List (List α)}
    (h : cutBlock cr lf s = some (l :: ls, r)) :
    l ≠ [] ∧ ∃ s', cutLine cr lf s = some (l, s')
      ∧ cutBlock cr lf s' = some (ls, r) := by
  rw [cutBlock] at h
  split at h
  · cases h
  · cases h
  · next s' h' =>
    obtain ⟨⟨ls', r'⟩, hrest, hp⟩ := Option.map_eq_some_iff.mp h
    cases hp
    exact ⟨List.cons_ne_nil _ _, s', h', hrest⟩

/-- The lines of a block have no break in them. -/
theorem cutBlock_break {s r : List α} {ls : List (List α)}
    (h : cutBlock cr lf s = some (ls, r)) :
    ∀ l ∈ ls, ¬ [cr, lf] <:+: l := by
  induction ls generalizing s with
  | nil => intro l hl; cases hl
  | cons l ls ih =>
      obtain ⟨-, s', hline, hrest⟩ := cutBlock_cons h
      rw [List.forall_mem_cons]
      exact ⟨(cutLine_eq_some hline).2, ih hrest⟩

variable (cr lf) in
/-- The lines one after another, closed by an empty line. -/
def renderBlock (ls : List (List α)) : List α :=
  ls.flatMap (· ++ [cr, lf]) ++ [cr, lf]

omit [DecidableEq α] in
/-- A block with a line in it ends with two breaks. -/
theorem renderBlock_suffix {ls : List (List α)} (h : ls ≠ []) :
    [cr, lf] ++ [cr, lf] <:+ renderBlock cr lf ls := by
  rcases List.eq_nil_or_concat ls with rfl | ⟨ls, l, rfl⟩
  · exact absurd rfl h
  · refine ⟨ls.flatMap (· ++ [cr, lf]) ++ l, ?_⟩
    simp [renderBlock]

/-- What was read is what the block is written as, and its lines are not
empty. -/
theorem cutBlock_sound {s r : List α} {ls : List (List α)}
    (h : cutBlock cr lf s = some (ls, r)) :
    s = renderBlock cr lf ls ++ r ∧ ∀ l ∈ ls, l ≠ [] := by
  induction ls generalizing s with
  | nil =>
      refine ⟨(cutLine_eq_some (cutLine_of_cutBlock_nil h)).1, ?_⟩
      intro l hl
      cases hl
  | cons l ls ih =>
      obtain ⟨hl, s', hline, hrest⟩ := cutBlock_cons h
      obtain ⟨hrender, hlines⟩ := ih hrest
      constructor
      · rw [(cutLine_eq_some hline).1, hrender]
        simp [renderBlock]
      · rw [List.forall_mem_cons]
        exact ⟨hl, hlines⟩

/-- Reading a block consumes it. -/
theorem cutBlock_length {s r : List α} {ls : List (List α)}
    (h : cutBlock cr lf s = some (ls, r)) : r.length < s.length := by
  rw [(cutBlock_sound h).1]
  simp only [renderBlock, List.length_append, List.length_cons]
  omega

/-- A block reads back as its lines, and the stream goes on after it. -/
theorem cutBlock_render (hne : cr ≠ lf) {ls : List (List α)}
    (h : ∀ l ∈ ls, l ≠ [] ∧ ¬ [cr, lf] <:+: l) (r : List α) :
    cutBlock cr lf (renderBlock cr lf ls ++ r) = some (ls, r) := by
  induction ls with
  | nil =>
      apply cutBlock_end
      simpa [renderBlock] using cutLine_append hne (l := []) (by simp) r
  | cons l ls ih =>
      obtain ⟨hl, hbreak⟩ := h l (List.mem_cons_self ..)
      have hcut : cutLine cr lf (renderBlock cr lf (l :: ls) ++ r)
          = some (l, renderBlock cr lf ls ++ r) := by
        rw [← cutLine_append hne hbreak]
        simp [renderBlock]
      rw [cutBlock_line hl hcut,
        ih fun l' hl' => h l' (List.mem_cons_of_mem _ hl')]
      rfl

/-- A complete block stays as it is when more symbols arrive. -/
theorem cutBlock_append_right {s r : List α} {ls : List (List α)}
    (h : cutBlock cr lf s = some (ls, r)) (t : List α) :
    cutBlock cr lf (s ++ t) = some (ls, r ++ t) := by
  induction ls generalizing s with
  | nil =>
      have hline := cutLine_of_cutBlock_nil h
      exact cutBlock_end (cutLine_append_right hline t)
  | cons l ls ih =>
      obtain ⟨hl, s', hline, hrest⟩ := cutBlock_cons h
      rw [cutBlock_line hl (cutLine_append_right hline t), ih hrest]
      rfl

end Creeper.Lib
