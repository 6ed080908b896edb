/-
What the patterns of `extract_entity` and `extract_id` find.

For a base of literals and dots the two searches are searches for the
base, a slash and a segment (`extractUnder_of_literal`), and for a base
that stands for itself they are the ones that the handler is modelled
with (`extract_of_under`).
-/
import Creeper.CrudPattern
import Creeper.Proofs.Crud.Extraction

namespace Creeper

open Lib

-- ================================================================ expressions

/-- `/` -/
def slashTest : CharTest := .char '/'

/-- `[^/]` -/
def segmentTest : CharTest := .items false [.range '/' '/']

/-- `[^/]+` -/
def segmentRegex : Regex := .many true 1 none (.one segmentTest)

/-- `/([^/]+)` -/
def entityTail : List Regex :=
  [.one slashTest, .group 1 (.sequence [segmentRegex])]

/-- `/[^/]+/([^/]+)` -/
def idTail : List Regex :=
  .one slashTest :: segmentRegex :: entityTail

theorem segmentTest_holds (c : Char) :
    segmentTest.holds c = decide (c ≠ '/') := by
  simp only [segmentTest, CharTest.holds, List.any_cons, List.any_nil,
    Bool.or_false, ClassItem.range_self_holds]
  by_cases hc : c = '/' <;> simp [hc]

-- =============================================================== compilation

section

variable {base : Str}

/-- The tokens of `/([^/]+)`. -/
theorem readTokens_entitySuffix :
    Pattern.readTokens entitySuffix.length entitySuffix
      = some [.atom (.one slashTest), .opening .capture,
        .atom (.one segmentTest), .quantifier true 1 none, .closing] := by
  decide +kernel

/-- The expression of `extract_entity`. -/
theorem compile_entity (h : ∀ c ∈ base, Pattern.IsLiteral c) :
    Pattern.compile (base ++ entitySuffix)
      = some ⟨.sequence ((base.map Pattern.testOf).map .one
          ++ entityTail), 1⟩ := by
  rw [Pattern.compile_literal_append h (by decide) readTokens_entitySuffix]
  exact Pattern.finish_literals base
    (entityTail.reverse.map fun r => (true, r)) 1 (by decide)

/-- The expression of `extract_id`. -/
theorem compile_id (h : ∀ c ∈ base, Pattern.IsLiteral c) :
    Pattern.compile (base ++ idSuffix)
      = some ⟨.sequence ((base.map Pattern.testOf).map .one
          ++ idTail), 1⟩ := by
  have htokens : Pattern.readTokens idSuffix.length idSuffix
      = some [.atom (.one slashTest), .atom (.one segmentTest),
        .quantifier true 1 none, .atom (.one slashTest),
        .opening .capture, .atom (.one segmentTest),
        .quantifier true 1 none, .closing] := by
    decide +kernel
  rw [Pattern.compile_literal_append h (by decide) htokens]
  exact Pattern.finish_literals base
    ((entityTail.reverse.map fun r => (true, r))
      ++ [(false, segmentRegex), (true, .one slashTest)]) 1 (by decide)

end

-- ================================================================== segments

section

variable {cur : Cursor}

theorem takeWhile_segmentTest (s : Str) :
    s.takeWhile segmentTest.holds = s.takeWhile (· ≠ '/') := by
  have hholds : segmentTest.holds = fun c => decide (c ≠ '/') :=
    funext segmentTest_holds
  rw [hholds]

/-- A slash in front of the rest of an expression. -/
theorem run_slash_cons {s : Str} (rs : List Regex)
    (hrest : cur.rest = '/' :: s) :
    (Regex.sequence (.one slashTest :: rs)).run cur
      = (Regex.sequence rs).run (cur.skip 1) := by
  rw [Regex.run_sequence_cons, Regex.run_one_of_holds hrest (by decide),
    List.flatMap_singleton]

/-- Nothing but a slash. -/
theorem run_slash_of_not (rs : List Regex)
    (hrest : cur.rest.head? ≠ some '/') :
    (Regex.sequence (.one slashTest :: rs)).run cur = [] := by
  rw [Regex.run_sequence_cons]
  cases hcur : cur.rest with
  | nil => rw [Regex.run_one_nil hcur]; rfl
  | cons c s =>
      rw [hcur] at hrest
      have hc : ¬ slashTest.holds c = true := by
        intro heq
        have hslash : c = '/' := by simpa [slashTest, CharTest.holds] using heq
        rw [hslash] at hrest
        exact hrest rfl
      rw [Regex.run_one_of_not hcur hc]
      rfl

/-- There is no segment where there is no slash. -/
theorem matchSegment_of_not {s : Str} (h : s.head? ≠ some '/') :
    matchSegment s = none := by
  unfold matchSegment
  split
  · exact absurd rfl h
  · rfl

/-- What `/([^/]+)` captures at the front. -/
def firstSegment (s : Str) : Option Str := (matchSegment s).map Prod.fst

/-- What `/[^/]+/([^/]+)` captures at the front. -/
def secondSegment (s : Str) : Option Str :=
  (matchSegment s).bind fun found => firstSegment found.2

/-- `/([^/]+)` captures the segment behind the slash. -/
theorem run_entityTail (cur : Cursor) :
    (((Regex.sequence entityTail).run cur).head?).map (·.group 1)
      = firstSegment cur.rest := by
  unfold firstSegment
  cases hcur : cur.rest with
  | nil =>
      rw [entityTail, run_slash_of_not _ (by rw [hcur]; simp)]
      rfl
  | cons c s =>
      by_cases hc : c = '/'
      · subst hc
        have hnext : (cur.skip 1).rest = s := by
          rw [Cursor.skip_rest, hcur]
          rfl
        obtain ⟨shorter, hrun, -⟩ := run_many_one (cur.skip 1) segmentTest
        rw [hnext, takeWhile_segmentTest] at hrun
        rw [entityTail, run_slash_cons _ hcur, Regex.run_sequence_singleton,
          Regex.run, Regex.run_sequence_singleton, segmentRegex, hrun,
          matchSegment]
        by_cases hempty : s.takeWhile (· ≠ '/') = []
        · rw [if_pos hempty, if_pos hempty]
          rfl
        · rw [if_neg hempty, if_neg hempty]
          have hsegment : s.take (s.takeWhile (· ≠ '/')).length
              = s.takeWhile (· ≠ '/') :=
            (List.prefix_iff_eq_take.mp (List.takeWhile_prefix _)).symm
          rw [List.map_cons, List.head?_cons, Option.map_some,
            Cursor.group_close_skip, hnext, hsegment]
          rfl
      · have hno : (c :: s).head? ≠ some '/' := by simpa using hc
        rw [entityTail, run_slash_of_not _ (by rw [hcur]; exact hno),
          matchSegment_of_not hno]
        rfl

/-- `/[^/]+` in front of a slash matches the segment and no part of
it. -/
theorem run_segment_slash {s segment rest : Str} (rs : List Regex)
    (hcur : cur.rest = s) (hsegment : matchSegment s = some (segment, rest)) :
    (Regex.sequence (.one slashTest :: segmentRegex :: .one slashTest
        :: rs)).run cur
      = (Regex.sequence (.one slashTest :: rs)).run
        (cur.skip (1 + segment.length)) := by
  obtain ⟨hs, ⟨hne, hslash⟩, hrest⟩ := matchSegment_eq_some_iff.mp hsegment
  have hnext : (cur.skip 1).rest = segment ++ rest := by
    rw [Cursor.skip_rest, hcur, hs]
    rfl
  obtain ⟨shorter, hrun, hshorter⟩ := run_many_one (cur.skip 1) segmentTest
  rw [hnext, takeWhile_segmentTest, (cut_segment hslash hrest).1,
    if_neg hne, Cursor.skip_skip] at hrun
  -- what is shorter stops inside the segment
  have hnone : shorter.flatMap
      (Regex.sequence (.one slashTest :: rs)).run = [] := by
    rw [List.flatMap_eq_nil_iff]
    intro other hother
    apply run_slash_of_not
    intro hhead
    have hpass := hshorter other hother
    rw [hhead] at hpass
    exact absurd hpass (by decide)
  rw [run_slash_cons _ (hcur.trans hs), Regex.run_sequence_cons,
    segmentRegex, hrun, List.flatMap_cons, hnone, List.append_nil]

/-- It matches nothing where there is no segment. -/
theorem run_segment_none (rs : List Regex)
    (hnone : matchSegment cur.rest = none) :
    (Regex.sequence (.one slashTest :: segmentRegex :: rs)).run cur
      = [] := by
  by_cases hslash : cur.rest.head? = some '/'
  · obtain ⟨s, hcur⟩ := List.head?_eq_some_iff.mp hslash
    have hnext : (cur.skip 1).rest = s := by
      rw [Cursor.skip_rest, hcur]
      rfl
    have hempty : s.takeWhile (· ≠ '/') = [] := by
      by_contra hne
      rw [hcur, matchSegment, if_neg hne] at hnone
      cases hnone
    obtain ⟨shorter, hrun, -⟩ := run_many_one (cur.skip 1) segmentTest
    rw [hnext, takeWhile_segmentTest, if_pos hempty] at hrun
    rw [run_slash_cons _ hcur, Regex.run_sequence_cons, segmentRegex, hrun]
    rfl
  · exact run_slash_of_not _ hslash

/-- `/[^/]+/([^/]+)` captures the second segment. -/
theorem run_idTail (cur : Cursor) :
    (((Regex.sequence idTail).run cur).head?).map (·.group 1)
      = secondSegment cur.rest := by
  unfold secondSegment
  cases hfound : matchSegment cur.rest with
  | none =>
      rw [idTail, run_segment_none _ hfound]
      rfl
  | some found =>
      obtain ⟨segment, rest⟩ := found
      have hrest : (cur.skip (1 + segment.length)).rest = rest := by
        rw [Cursor.skip_rest, (matchSegment_eq_some_iff.mp hfound).1,
          Nat.add_comm, List.drop_succ_cons, List.drop_left]
      have htail := run_entityTail (cur.skip (1 + segment.length))
      rw [hrest] at htail
      rw [Option.bind_some, ← htail, idTail, entityTail,
        run_segment_slash _ rfl hfound]

end

-- ================================================================= literals

/-- The text begins with what a base of literals and dots matches. -/
def passesBase (base s : Str) : Bool := passAll (base.map Pattern.testOf) s

/-- What a tail that captures `f` captures behind such a base. -/
def matchUnder (f : Str → Option Str) (base s : Str) : Option Str :=
  if passesBase base s then f (s.drop base.length) else none

/-- What is captured behind literals. -/
theorem head_run_literal (base : Str) {tail : List Regex}
    {f : Str → Option Str}
    (htail : ∀ cur : Cursor,
      (((Regex.sequence tail).run cur).head?).map (·.group 1) = f cur.rest)
    (done rest : Str) :
    ((Regex.sequence ((base.map Pattern.testOf).map .one
        ++ tail)).run ⟨done, rest, []⟩).head?.map (·.group 1)
      = matchUnder f base rest := by
  rw [Regex.run_sequence_ones, List.length_map]
  unfold matchUnder passesBase
  dsimp only
  by_cases hpass : passAll (base.map Pattern.testOf) rest = true
  · rw [if_pos hpass, if_pos hpass, htail]
    rfl
  · rw [if_neg hpass, if_neg hpass]
    rfl

/-- What a pattern of literals and a tail finds. -/
theorem searchPattern_of_literal {base suffix : Str} {tail : List Regex}
    {f : Str → Option Str}
    (hcompile : Pattern.compile (base ++ suffix)
      = some ⟨.sequence ((base.map Pattern.testOf).map .one ++ tail), 1⟩)
    (htail : ∀ cur : Cursor,
      (((Regex.sequence tail).run cur).head?).map (·.group 1) = f cur.rest)
    (uri : Str) :
    searchPattern (base ++ suffix) uri
      = some ((uri.tails.findSome? (matchUnder f base)).getD []) := by
  have hsearch := Regex.search_map (head_run_literal base htail) [] uri
  unfold searchPattern
  rw [hcompile, Option.map_some, ← hsearch]
  unfold Pattern.Compiled.search
  cases Regex.search _ [] uri with
  | none => rfl
  | some m => rfl

/-- The entity and the id that are extracted under a base of literals and
dots. -/
theorem extractUnder_of_literal {base : Str}
    (h : ∀ c ∈ base, Pattern.IsLiteral c) (uri : Str) :
    extractEntityUnder base uri
        = some ((uri.tails.findSome?
          (matchUnder firstSegment base)).getD [])
      ∧ extractIdUnder base uri
        = some ((uri.tails.findSome?
          (matchUnder secondSegment base)).getD []) :=
  ⟨searchPattern_of_literal (compile_entity h) run_entityTail uri,
    searchPattern_of_literal (compile_id h) run_idTail uri⟩

-- =============================================================== the handler

/-- A base that stands for itself is made of literals, none a dot. -/
theorem literal_of_plain {base : Str} (hplain : isPlainBase base) :
    ∀ c ∈ base, Pattern.IsLiteral c ∧ c ≠ '.' := by
  intro c hc
  have hno : c ∉ regexMetacharacters := by
    simpa using List.all_eq_true.mp hplain c hc
  constructor
  · right
    intro hsyntax
    have hsub : Pattern.syntaxCharacters ⊆ regexMetacharacters := by decide
    exact hno (hsub hsyntax)
  · intro hdot
    rw [hdot] at hno
    exact hno (by decide)

/-- Characters pass the tests of such a base if they are the base. -/
theorem passesBase_iff {base : Str} (hdot : ∀ c ∈ base, c ≠ '.')
    (s : Str) : passesBase base s = true ↔ base <+: s := by
  unfold passesBase
  induction base generalizing s with
  | nil => simp [passAll]
  | cons c base ih =>
      rw [List.forall_mem_cons] at hdot
      cases s with
      | nil => simp [passAll]
      | cons d s =>
          have htest : (Pattern.testOf c).holds d = decide (d = c) := by
            rw [Pattern.testOf, if_neg hdot.1]
            rfl
          rw [List.map_cons, passAll, htest, Bool.and_eq_true,
            decide_eq_true_iff, ih hdot.2, List.cons_prefix_cons, eq_comm]

/-- Under such a base the compiled searches are the computed ones. -/
theorem matchUnder_of_plain {base : Str} (hdot : ∀ c ∈ base, c ≠ '.')
    (s : Str) :
    matchUnder firstSegment base s = matchEntity base s
      ∧ matchUnder secondSegment base s = matchId base s := by
  unfold matchUnder matchEntity matchId
  simp only [passesBase_iff hdot]
  by_cases hbase : base <+: s
  · rw [if_pos hbase, if_pos hbase, if_pos hbase, if_pos hbase]
    refine ⟨rfl, ?_⟩
    unfold secondSegment firstSegment
    cases matchSegment (s.drop base.length) with
    | none => rfl
    | some found => rfl
  · rw [if_neg hbase, if_neg hbase, if_neg hbase, if_neg hbase]
    exact ⟨rfl, rfl⟩

/-- What the handler extracts, if its searches are these, is what is
found under its base, unless that throws. -/
theorem CrudRequestHandler.extract_of_under {J : Type}
    {h : CrudRequestHandler J} (hsearch : h.regexSearch = searchPattern)
    (uri : Str) :
    (∀ entity, extractEntityUnder h.baseUri uri = some entity →
        h.extractEntity uri = entity)
      ∧ ∀ id, extractIdUnder h.baseUri uri = some id →
        h.extractId uri = id := by
  by_cases hplain : isPlainBase h.baseUri
  · have hliteral := literal_of_plain hplain
    have hdot : ∀ c ∈ h.baseUri, c ≠ '.' := fun c hc => (hliteral c hc).2
    have hunder := extractUnder_of_literal
      (fun c hc => (hliteral c hc).1) uri
    have hfirst : matchUnder firstSegment h.baseUri = matchEntity h.baseUri :=
      funext fun s => (matchUnder_of_plain hdot s).1
    have hsecond : matchUnder secondSegment h.baseUri = matchId h.baseUri :=
      funext fun s => (matchUnder_of_plain hdot s).2
    obtain ⟨hentity, hid⟩ := extract_of_plain hplain uri
    rw [hunder.1, hunder.2, hfirst, hsecond, ← hentity, ← hid]
    exact ⟨fun _ heq => Option.some.inj heq, fun _ heq => Option.some.inj heq⟩
  · unfold extractEntity extractId extractEntityUnder extractIdUnder
    rw [if_neg hplain, if_neg hplain, hsearch]
    unfold entitySuffix idSuffix
    constructor
    · intro entity hfound
      rw [hfound]
      rfl
    · intro id hfound
      rw [hfound]
      rfl

end Creeper
