/-
HTTP/1.1 message heads: a start line, field lines `name: value`, an
empty line, every line ended by CRLF.

`Head.render` writes a head and `readHead` reads one off a stream.
`readHead_render` is the round trip for a `Clean` head (no CRLF inside
a line, no colon inside a name), whatever follows it on the stream, and
`readHead_append_right` says that a complete head does not change when
more of the stream arrives; from the two, `readHead_prefix_eq_none`:
no proper prefix of a head is a head.

How long the body after a head is, is up to the caller: the framing
reads no field value.
-/
import Creeper.Lib.Lines

namespace Creeper.Lib.Http1

/-- The start line and the fields, in the order they are written. -/
structure Head where
  start : List Char
  fields : List (List Char × List Char)
  deriving DecidableEq

-- ============================================================ field lines

/-- One field as a line, its CRLF left out. -/
def fieldLine (f : List Char × List Char) : List Char :=
  f.1 ++ ':' :: ' ' :: f.2

/-- The name up to the first colon; the value after a colon and one
space. -/
def readField : List Char → Option (List Char × List Char)
  | [] => none
  | ':' :: ' ' :: value => some ([], value)
  | c :: rest =>
      if c = ':' then none
      else (readField rest).map fun f => (c :: f.1, f.2)

/-- A field whose name has no colon reads back. -/
theorem readField_fieldLine {name : List Char} (h : ':' ∉ name)
    (value : List Char) :
    readField (fieldLine (name, value)) = some (name, value) := by
  induction name with
  | nil => rfl
  | cons c name ih =>
      have hc : c ≠ ':' := fun he => h (by simp [he])
      have hrest : readField (name ++ ':' :: ' ' :: value)
          = some (name, value) :=
        ih fun hm => h (List.mem_cons_of_mem _ hm)
      show readField (c :: (name ++ ':' :: ' ' :: value)) = _
      rw [readField]
      · rw [if_neg hc, hrest]
        rfl
      · intro _ heq
        subst heq
        exact absurd rfl hc

/-- What was read off a line is what the line says. -/
theorem fieldLine_readField {l : List Char} {f : List Char × List Char}
    (h : readField l = some f) : fieldLine f = l := by
  induction l using readField.induct generalizing f with
  | case1 => cases h
  | case2 value => cases h; rfl
  | case3 rest hrest => simp [readField] at h
  | case4 c rest hrest hc ih =>
      rw [readField] at h
      · rw [if_neg hc] at h
        obtain ⟨g, hg, rfl⟩ := Option.map_eq_some_iff.mp h
        rw [← ih hg]
        rfl
      · exact hrest

/-- What was read as a name has no colon. -/
theorem readField_name {l : List Char} {f : List Char × List Char}
    (h : readField l = some f) : ':' ∉ f.1 := by
  induction l using readField.induct generalizing f with
  | case1 => cases h
  | case2 value => cases h; simp
  | case3 rest hrest => simp [readField] at h
  | case4 c rest hrest hc ih =>
      rw [readField] at h
      · rw [if_neg hc] at h
        obtain ⟨g, hg, rfl⟩ := Option.map_eq_some_iff.mp h
        simp [ih hg, Ne.symm hc]
      · exact hrest

/-- Fields whose names have no colon read back, line by line. -/
theorem mapM_readField {fields : List (List Char × List Char)}
    (h : ∀ f ∈ fields, ':' ∉ f.1) :
    (fields.map fieldLine).mapM readField = some fields := by
  induction fields with
  | nil => rfl
  | cons f fields ih =>
      have hf := readField_fieldLine (h f (List.mem_cons_self ..)) f.2
      have hrest := ih fun g hg => h g (List.mem_cons_of_mem _ hg)
      simp [hf, hrest]

/-- Fields are read off lines one by one. -/
theorem mapM_readField_cons {l : List Char} {ls : List (List Char)}
    {fields : List (List Char × List Char)}
    (h : (l :: ls).mapM readField = some fields) :
    ∃ f fs, fields = f :: fs ∧ readField l = some f
      ∧ ls.mapM readField = some fs := by
  simp only [List.mapM_cons, Option.pure_def, Option.bind_eq_bind,
    Option.bind_eq_some_iff] at h
  obtain ⟨f, hf, fs, hfs, heq⟩ := h
  exact ⟨f, fs, (Option.some.inj heq).symm, hf, hfs⟩

/-- The lines that fields were read off are the lines of the fields. -/
theorem map_fieldLine_of_mapM {ls : List (List Char)}
    {fields : List (List Char × List Char)}
    (h : ls.mapM readField = some fields) : fields.map fieldLine = ls := by
  induction ls generalizing fields with
  | nil =>
      cases h
      rfl
  | cons l ls ih =>
      obtain ⟨f, fs, rfl, hf, hfs⟩ := mapM_readField_cons h
      rw [List.map_cons, fieldLine_readField hf, ih hfs]

-- =================================================================== heads

namespace Head

/-- The lines of a head, the empty one left out. -/
def lines (h : Head) : List (List Char) :=
  h.start :: h.fields.map fieldLine

/-- A head as it stands on the stream. -/
def render (h : Head) : List Char := renderBlock '\r' '\n' h.lines

/-- A head that can be told from its rendering: no line has a CRLF in
it, the start line is not empty, and no name has a colon. -/
structure Clean (h : Head) : Prop where
  start_ne_nil : h.start ≠ []
  start_break : ¬ ['\r', '\n'] <:+: h.start
  field_break : ∀ f ∈ h.fields, ¬ ['\r', '\n'] <:+: fieldLine f
  field_name : ∀ f ∈ h.fields, ':' ∉ f.1

end Head

/-- Read a head off a stream: the head and what follows it. -/
def readHead (s : List Char) : Option (Head × List Char) :=
  match cutBlock '\r' '\n' s with
  | some (start :: ls, rest) =>
      (ls.mapM readField).map fun fields => (⟨start, fields⟩, rest)
  | _ => none

/-- Every line of a clean head is a nonempty line without a break. -/
theorem Head.Clean.lines_ok {h : Head} (hc : h.Clean) :
    ∀ l ∈ h.lines, l ≠ [] ∧ ¬ ['\r', '\n'] <:+: l := by
  intro l hl
  rcases List.mem_cons.mp hl with rfl | hl
  · exact ⟨hc.start_ne_nil, hc.start_break⟩
  · obtain ⟨f, hf, rfl⟩ := List.mem_map.mp hl
    exact ⟨by simp [fieldLine], hc.field_break f hf⟩

/-- A clean head reads back, and the stream goes on after it. -/
theorem readHead_render {h : Head} (hc : h.Clean) (rest : List Char) :
    readHead (h.render ++ rest) = some (h, rest) := by
  have hblock := cutBlock_render (by decide) hc.lines_ok rest
  rw [readHead, Head.render, hblock]
  simp [Head.lines, mapM_readField hc.field_name]

/-- A head that was read is a block of lines. -/
theorem cutBlock_of_readHead {s rest : List Char} {h : Head}
    (hread : readHead s = some (h, rest)) :
    ∃ ls, cutBlock '\r' '\n' s = some (h.start :: ls, rest)
      ∧ ls.mapM readField = some h.fields := by
  rw [readHead] at hread
  split at hread
  · next start ls rest' hcut =>
    obtain ⟨fields, hfields, heq⟩ := Option.map_eq_some_iff.mp hread
    cases heq
    exact ⟨ls, hcut, hfields⟩
  · cases hread

/-- No field that was read has a break in its line. -/
theorem readHead_field_break {s rest : List Char} {h : Head}
    (hread : readHead s = some (h, rest)) :
    ∀ f ∈ h.fields, ¬ ['\r', '\n'] <:+: fieldLine f := by
  obtain ⟨ls, hcut, hfields⟩ := cutBlock_of_readHead hread
  intro f hf
  have hline : fieldLine f ∈ ls := by
    rw [← map_fieldLine_of_mapM hfields]
    exact List.mem_map_of_mem hf
  exact cutBlock_break hcut _ (List.mem_cons_of_mem _ hline)

/-- Reading a head consumes it. -/
theorem readHead_length {s rest : List Char} {h : Head}
    (hread : readHead s = some (h, rest)) : rest.length < s.length := by
  obtain ⟨ls, hcut, -⟩ := cutBlock_of_readHead hread
  exact cutBlock_length hcut

/-- The fields that were read off lines have names without a colon. -/
theorem mapM_readField_name {ls : List (List Char)}
    {fields : List (List Char × List Char)}
    (h : ls.mapM readField = some fields) : ∀ f ∈ fields, ':' ∉ f.1 := by
  induction ls generalizing fields with
  | nil =>
      cases h
      intro f hf
      cases hf
  | cons l ls ih =>
      obtain ⟨f, fs, rfl, hf, hfs⟩ := mapM_readField_cons h
      rw [List.forall_mem_cons]
      exact ⟨readField_name hf, ih hfs⟩

/-- What was read is a clean head, as it is written, and the rest. -/
theorem readHead_sound {s rest : List Char} {h : Head}
    (hread : readHead s = some (h, rest)) :
    h.Clean ∧ s = h.render ++ rest := by
  have hbreak := readHead_field_break hread
  obtain ⟨ls, hcut, hfields⟩ := cutBlock_of_readHead hread
  obtain ⟨hs, hlines⟩ := cutBlock_sound hcut
  refine ⟨⟨?_, ?_, hbreak, mapM_readField_name hfields⟩, ?_⟩
  · exact hlines h.start (List.mem_cons_self ..)
  · exact cutBlock_break hcut h.start (List.mem_cons_self ..)
  · rw [hs, Head.render, Head.lines, map_fieldLine_of_mapM hfields]

/-- A complete head stays as it is when more of the stream arrives. -/
theorem readHead_append_right {s rest : List Char} {h : Head}
    (hread : readHead s = some (h, rest)) (t : List Char) :
    readHead (s ++ t) = some (h, rest ++ t) := by
  obtain ⟨ls, hcut, hfields⟩ := cutBlock_of_readHead hread
  rw [readHead, cutBlock_append_right hcut t]
  simp only [hfields, Option.map_some]

/-- Nothing short of a whole head reads as one. -/
theorem readHead_prefix_eq_none {h : Head} (hc : h.Clean)
    {p : List Char} (hp : p <+: h.render) (hne : p ≠ h.render) :
    readHead p = none := by
  cases hread : readHead p with
  | none => rfl
  | some hr =>
      exfalso
      obtain ⟨t, ht⟩ := hp
      have hlong : readHead (p ++ t) = some (hr.1, hr.2 ++ t) :=
        readHead_append_right hread t
      have hwhole := readHead_render hc []
      rw [List.append_nil, ← ht, hlong] at hwhole
      have htail : hr.2 ++ t = [] := by
        simpa using congrArg Prod.snd (Option.some.inj hwhole)
      apply hne
      rw [← ht, (List.append_eq_nil_iff.mp htail).2, List.append_nil]

end Creeper.Lib.Http1
