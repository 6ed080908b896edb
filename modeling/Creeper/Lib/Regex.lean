/-
Regular expressions that capture, and the matches a backtracking search
finds in the order in which it tries them (ECMA-262, 15.10).

`run` is all ways to match at one place, the first to be tried first, so
what a search reports is the head of a `run`: `search` takes the first
place that has one. A repetition of a test on single characters has one
way for every length, the longest first (`run_many_one`), and the
shorter ones stop in front of a character that passes.

# What a match is made of

`Solid` expressions must match all of their characters, once at least,
and nothing else: whatever they match has in it no fewer characters than
they have (`run_solid`).
-/
import Creeper.Lib.Stoi

namespace Creeper.Lib

-- ============================================================== characters

/-- The character classes that have a name. -/
inductive ClassName
  | alnum | alpha | blank | cntrl | digit | graph | lower | print | punct
  | space | upper | xdigit | word
  deriving DecidableEq

/-- A visible character. -/
def isGraph (c : Char) : Bool := '!' ≤ c && c ≤ '~'

/-- The characters of a class, in the locale "C". -/
def ClassName.holds : ClassName → Char → Bool
  | .alnum, c => c.isAlphanum
  | .alpha, c => c.isAlpha
  | .blank, c => c = ' ' || c = '\t'
  | .cntrl, c => c < ' ' || c = '\x7f'
  | .digit, c => c.isDigit
  | .graph, c => isGraph c
  | .lower, c => c.isLower
  | .print, c => c = ' ' || isGraph c
  | .punct, c => isGraph c && !c.isAlphanum
  | .space, c => isSpace c
  | .upper, c => c.isUpper
  | .xdigit, c => c.isDigit || ('a' ≤ c && c ≤ 'f') || ('A' ≤ c && c ≤ 'F')
  | .word, c => c.isAlphanum || c = '_'

/-- What a bracket expression lists. -/
inductive ClassItem
  | range (first last : Char)
  | named (wanted : Bool) (name : ClassName)
  deriving DecidableEq

def ClassItem.holds : ClassItem → Char → Bool
  | .range first last, c => first ≤ c && c ≤ last
  | .named wanted name, c => name.holds c = wanted

/-- The range from a character to itself. -/
theorem ClassItem.range_self_holds (c d : Char) :
    (ClassItem.range c c).holds d = decide (d = c) := by
  have hiff : (c ≤ d ∧ d ≤ c) ↔ d = c := by
    constructor
    · intro h
      exact Char.le_antisymm h.2 h.1
    · intro h
      rw [h]
      exact ⟨Char.le_refl _, Char.le_refl _⟩
  rw [Bool.eq_iff_iff, decide_eq_true_iff, ← hiff]
  simp only [holds, Bool.and_eq_true, decide_eq_true_iff]

/-- The line terminators, which `.` does not match. -/
def lineTerminators : List Char := ['\n', '\r', '\u2028', '\u2029']

/-- What is asked of one character. -/
inductive CharTest
  | char (c : Char)
  | any
  | items (wanted : Bool) (listed : List ClassItem)
  deriving DecidableEq

def CharTest.holds : CharTest → Char → Bool
  | .char d, c => c = d
  | .any, c => c ∉ lineTerminators
  | .items wanted listed, c => listed.any (·.holds c) = wanted

-- ============================================================= expressions

/-- A regular expression. -/
inductive Regex
  | empty
  | one (test : CharTest)
  | seq (r s : Regex)
  | alt (r s : Regex)
  /-- At least `least` times, at most `most` times if there is such a
  bound; as often as possible if `greedy`, else as seldom. -/
  | many (greedy : Bool) (least : Nat) (most : Option Nat) (r : Regex)
  | group (n : Nat) (r : Regex)
  | ahead (wanted : Bool) (r : Regex)
  | atStart
  | atEnd
  | boundary (wanted : Bool)
  | again (n : Nat)
  deriving DecidableEq

/-- The groups of an expression. -/
def Regex.groups : Regex → List Nat
  | .empty | .one _ | .atStart | .atEnd | .boundary _ | .again _ => []
  | .seq r s | .alt r s => r.groups ++ s.groups
  | .many _ _ _ r | .ahead _ r => r.groups
  | .group n r => n :: r.groups

/-- The groups an expression refers to. -/
def Regex.references : Regex → List Nat
  | .empty | .one _ | .atStart | .atEnd | .boundary _ => []
  | .seq r s | .alt r s => r.references ++ s.references
  | .many _ _ _ r | .ahead _ r | .group _ r => r.references
  | .again n => [n]

-- ================================================================= matching

/-- Where a match has come to. -/
structure Cursor where
  /-- What lies before, the last character first. -/
  done : List Char
  rest : List Char
  /-- What groups have captured, the latest first. -/
  captures : List (Nat × List Char)
  deriving DecidableEq

namespace Cursor

variable (cur : Cursor)

/-- Some characters further on. -/
def skip (n : Nat) : Cursor :=
  { cur with
    done := (cur.rest.take n).reverse ++ cur.done
    rest := cur.rest.drop n }

/-- Without what these groups have captured. -/
def forget (groups : List Nat) : Cursor :=
  { cur with captures := cur.captures.filter fun p => p.1 ∉ groups }

/-- What a group has captured, nothing if it was not matched. -/
def group (n : Nat) : List Char := (cur.captures.lookup n).getD []

/-- Group `n` has captured all from `start` on. -/
def close (n : Nat) (start : Cursor) : Cursor :=
  { cur with
    captures := (n, start.rest.take (start.rest.length - cur.rest.length))
      :: cur.captures }

/-- Between a word character and another one. -/
def onBoundary : Bool :=
  cur.done.head?.any ClassName.word.holds
    != cur.rest.head?.any ClassName.word.holds

end Cursor

/-- `n` times. -/
def exactly (f : Cursor → List Cursor) : Nat → Cursor → List Cursor
  | 0, cur => [cur]
  | n + 1, cur => (f cur).flatMap (exactly f n)

/-- Up to `n` times; a time that matches nothing does not count. -/
def upTo (f : Cursor → List Cursor) (greedy : Bool) :
    Nat → Cursor → List Cursor
  | 0, cur => [cur]
  | n + 1, cur =>
      let more := ((f cur).filter fun next =>
        next.rest.length < cur.rest.length).flatMap (upTo f greedy n)
      if greedy then more ++ [cur] else cur :: more

/-- The ways to match from a cursor on, in the order they are tried. -/
def Regex.run : Regex → Cursor → List Cursor
  | .empty, cur => [cur]
  | .one test, cur =>
      if cur.rest.head?.any test.holds then [cur.skip 1] else []
  | .seq r s, cur => (r.run cur).flatMap s.run
  | .alt r s, cur => r.run cur ++ s.run cur
  | .many greedy least most r, cur =>
      let once := fun start : Cursor => r.run (start.forget r.groups)
      (exactly once least cur).flatMap fun start =>
        upTo once greedy (match most with
          | none => start.rest.length
          | some most => most - least) start
  | .group n r, cur => (r.run cur).map fun stop => stop.close n cur
  | .ahead wanted r, cur =>
      match r.run cur, wanted with
      | [], true => []
      | found :: _, true => [{ cur with captures := found.captures }]
      | [], false => [cur]
      | _ :: _, false => []
  | .atStart, cur => if cur.done = [] then [cur] else []
  | .atEnd, cur => if cur.rest = [] then [cur] else []
  | .boundary wanted, cur => if cur.onBoundary = wanted then [cur] else []
  | .again n, cur =>
      if cur.group n <+: cur.rest then [cur.skip (cur.group n).length]
      else []

/-- The first match at the first place that has one. -/
def Regex.search (r : Regex) (done : List Char) :
    List Char → Option Cursor
  | [] => (r.run ⟨done, [], []⟩).head?
  | c :: rest =>
      (r.run ⟨done, c :: rest, []⟩).head?.or (search r (c :: done) rest)

-- =================================================== one character at a time

/-- One after another. -/
def Regex.sequence (rs : List Regex) : Regex := rs.foldr .seq .empty

theorem Regex.references_sequence (rs : List Regex) :
    (sequence rs).references = rs.flatMap references := by
  induction rs with
  | nil => rfl
  | cons r rs ih =>
      rw [List.flatMap_cons, ← ih]
      rfl

/-- The characters at the front pass the tests, one by one. -/
def passAll : List CharTest → List Char → Bool
  | [], _ => true
  | _ :: _, [] => false
  | t :: ts, c :: s => t.holds c && passAll ts s

section

variable {cur : Cursor} {test : CharTest}

@[simp] theorem Cursor.skip_zero : cur.skip 0 = cur := by
  simp [Cursor.skip]

theorem Cursor.skip_skip (m n : Nat) :
    (cur.skip m).skip n = cur.skip (m + n) := by
  simp [Cursor.skip, List.take_add, List.drop_drop]

@[simp] theorem Cursor.skip_rest (n : Nat) :
    (cur.skip n).rest = cur.rest.drop n := rfl

@[simp] theorem Cursor.forget_nil : cur.forget [] = cur := by
  simp [Cursor.forget]

/-- A group that was closed some characters on has captured these. -/
theorem Cursor.group_close_skip (n k : Nat) :
    ((cur.skip k).close n cur).group n = cur.rest.take k := by
  have htake : cur.rest.take (cur.rest.length - (cur.rest.length - k))
      = cur.rest.take k := by
    rcases Nat.le_total k cur.rest.length with hle | hle
    · rw [Nat.sub_sub_self hle]
    · rw [Nat.sub_eq_zero_of_le hle, Nat.sub_zero, List.take_length,
        List.take_of_length_le hle]
  simp [close, group, htake]

/-- A test that the next character passes. -/
theorem Regex.run_one_of_holds {c : Char} {s : List Char}
    (hrest : cur.rest = c :: s) (hc : test.holds c = true) :
    (one test).run cur = [cur.skip 1] := by
  simp [run, hrest, hc]

/-- A test that it does not pass. -/
theorem Regex.run_one_of_not {c : Char} {s : List Char}
    (hrest : cur.rest = c :: s) (hc : ¬ test.holds c = true) :
    (one test).run cur = [] := by
  simp [run, hrest, hc]

theorem Regex.run_one_nil (hrest : cur.rest = []) :
    (one test).run cur = [] := by
  simp [run, hrest]

/-- What is run in a sequence is run after its head. -/
theorem Regex.run_sequence_cons (r : Regex) (rs : List Regex) :
    (sequence (r :: rs)).run cur
      = (r.run cur).flatMap (sequence rs).run := rfl

theorem Regex.run_sequence_append (rs ts : List Regex) :
    (sequence (rs ++ ts)).run cur
      = ((sequence rs).run cur).flatMap (sequence ts).run := by
  induction rs generalizing cur with
  | nil =>
      show _ = [cur].flatMap _
      rw [List.flatMap_singleton, List.nil_append]
  | cons r rs ih =>
      have hrs : (sequence (rs ++ ts)).run
          = fun mid => ((sequence rs).run mid).flatMap (sequence ts).run :=
        funext fun mid => ih
      rw [List.cons_append, run_sequence_cons, run_sequence_cons, hrs,
        List.flatMap_assoc]

theorem Regex.run_sequence_singleton (r : Regex) :
    (sequence [r]).run cur = r.run cur := by
  rw [run_sequence_cons]
  exact List.flatMap_singleton' _

/-- Tests in a sequence match where they fit, in one way. -/
theorem Regex.run_sequence_ones (tests : List CharTest) (rs : List Regex) :
    (sequence (tests.map .one ++ rs)).run cur
      = if passAll tests cur.rest then
          (sequence rs).run (cur.skip tests.length)
        else [] := by
  induction tests generalizing cur with
  | nil => simp [passAll]
  | cons t tests ih =>
      rw [List.map_cons, List.cons_append, run_sequence_cons]
      cases hrest : cur.rest with
      | nil =>
          rw [run_one_nil hrest]
          rfl
      | cons c s =>
          rw [passAll]
          by_cases hc : t.holds c = true
          · have hskip : (cur.skip 1).rest = s := by
              rw [Cursor.skip_rest, hrest]
              rfl
            rw [run_one_of_holds hrest hc, List.flatMap_singleton, ih, hskip,
              hc, Cursor.skip_skip, Bool.true_and, List.length_cons,
              Nat.add_comm]
          · rw [run_one_of_not hrest hc, (Bool.not_eq_true _).mp hc]
            rfl

/-- A test repeated without a bound matches as far as it holds, before
anything shorter, and what is shorter stops in front of a character that
passes. -/
theorem upTo_one (test : CharTest) (cur : Cursor) (n : Nat)
    (hn : cur.rest.length ≤ n) :
    ∃ shorter, upTo (Regex.one test).run true n cur
        = cur.skip (cur.rest.takeWhile test.holds).length :: shorter
      ∧ ∀ other ∈ shorter, other.rest.head?.any test.holds = true := by
  induction n generalizing cur with
  | zero =>
      have hnil : cur.rest = [] := List.length_eq_zero_iff.mp (by omega)
      refine ⟨[], ?_, by simp⟩
      rw [hnil]
      simp [upTo]
  | succ n ih =>
      rw [upTo]
      cases hrest : cur.rest with
      | nil =>
          refine ⟨[], ?_, by simp⟩
          rw [Regex.run_one_nil hrest]
          simp
      | cons c s =>
          by_cases hc : test.holds c = true
          · -- the longest after one character is the longest
            have hnext : (cur.skip 1).rest = s := by
              rw [Cursor.skip_rest, hrest]
              rfl
            obtain ⟨shorter, hrun, hshorter⟩ := ih (cur.skip 1)
              (by rw [hnext]; rw [hrest, List.length_cons] at hn; omega)
            refine ⟨shorter ++ [cur], ?_, ?_⟩
            · rw [hnext, Cursor.skip_skip] at hrun
              rw [Regex.run_one_of_holds hrest hc]
              simp [hrest, hc, hrun, Nat.add_comm]
            · intro other hother
              rcases List.mem_append.mp hother with hmem | hmem
              · exact hshorter other hmem
              · rw [List.mem_singleton.mp hmem, hrest]
                exact hc
          · refine ⟨[], ?_, by simp⟩
            rw [Regex.run_one_of_not hrest hc]
            simp [hc]

/-- The same for a test that must hold at least once. -/
theorem run_many_one (cur : Cursor) (test : CharTest) :
    ∃ shorter, (Regex.many true 1 none (.one test)).run cur
        = (if (cur.rest.takeWhile test.holds) = [] then []
          else cur.skip (cur.rest.takeWhile test.holds).length :: shorter)
      ∧ ∀ other ∈ shorter, other.rest.head?.any test.holds = true := by
  have honce : (fun start : Cursor => (Regex.one test).run
      (start.forget (Regex.one test).groups)) = (Regex.one test).run := by
    funext start
    rw [Regex.groups, Cursor.forget_nil]
  have hrun : (Regex.many true 1 none (.one test)).run cur
      = ((Regex.one test).run cur).flatMap fun start =>
        upTo (Regex.one test).run true start.rest.length start := by
    show (exactly (fun start => (Regex.one test).run
        (start.forget (Regex.one test).groups)) 1 cur).flatMap
      (fun start => upTo (fun start => (Regex.one test).run
        (start.forget (Regex.one test).groups)) true start.rest.length
          start) = _
    rw [honce]
    simp only [exactly, List.flatMap_singleton']
  rw [hrun]
  cases hrest : cur.rest with
  | nil =>
      rw [Regex.run_one_nil hrest]
      exact ⟨[], by simp, by simp⟩
  | cons c s =>
      by_cases hc : test.holds c = true
      · have hnext : (cur.skip 1).rest = s := by
          rw [Cursor.skip_rest, hrest]
          rfl
        obtain ⟨shorter, hmore, hshorter⟩ := upTo_one test (cur.skip 1) s.length
          (by rw [hnext])
        refine ⟨shorter, ?_, hshorter⟩
        rw [hnext, Cursor.skip_skip] at hmore
        rw [Regex.run_one_of_holds hrest hc, List.flatMap_singleton, hnext,
          hmore]
        simp [hc, Nat.add_comm]
      · rw [Regex.run_one_of_not hrest hc]
        exact ⟨[], by simp [hc], by simp⟩

end

-- ================================================================ searching

/-- Where what is made of a match depends only on what lies ahead, a
search is a search through what lies ahead. -/
theorem Regex.search_map {β : Type} {r : Regex} {g : Cursor → β}
    {f : List Char → Option β}
    (h : ∀ done rest, (r.run ⟨done, rest, []⟩).head?.map g = f rest)
    (done rest : List Char) :
    (r.search done rest).map g = rest.tails.findSome? f := by
  induction rest generalizing done with
  | nil => simp [search, h]
  | cons c rest ih =>
      rw [search, Option.map_or, h, ih, List.tails, List.findSome?_cons]
      cases f (c :: rest) with
      | none => rfl
      | some v => rfl

/-- A search finds nothing if no place matches. -/
theorem Regex.search_eq_none {r : Regex} {rest : List Char}
    (h : ∀ done place, place <:+ rest → r.run ⟨done, place, []⟩ = [])
    (done : List Char) : r.search done rest = none := by
  induction rest generalizing done with
  | nil =>
      rw [search, h done [] (List.suffix_refl _)]
      rfl
  | cons c rest ih =>
      have hrest := ih fun done place hplace =>
        h done place (hplace.trans (List.suffix_cons c rest))
      rw [search, h done (c :: rest) (List.suffix_refl _), hrest]
      rfl

-- =================================================== what a match is made of

/-- The match has gone on over allowed characters, at least `n` of
them. -/
def Eats (allowed : Char → Prop) (n : Nat) (cur next : Cursor) : Prop :=
  ∃ eaten, cur.rest = eaten ++ next.rest ∧ (∀ c ∈ eaten, allowed c)
    ∧ n ≤ eaten.length

section

variable {allowed : Char → Prop} {m n : Nat} {cur mid next : Cursor}

/-- The match has not gone on. -/
theorem Eats.stay (h : next.rest = cur.rest) : Eats allowed 0 cur next :=
  ⟨[], by rw [h]; rfl, by simp, Nat.le_refl 0⟩

theorem Eats.trans (h : Eats allowed m cur mid)
    (h' : Eats allowed n mid next) : Eats allowed (m + n) cur next := by
  obtain ⟨eaten, hcur, hallowed, hm⟩ := h
  obtain ⟨eaten', hmid, hallowed', hn⟩ := h'
  refine ⟨eaten ++ eaten', ?_, ?_, ?_⟩
  · rw [hcur, hmid, List.append_assoc]
  · rw [List.forall_mem_append]
    exact ⟨hallowed, hallowed'⟩
  · rw [List.length_append]
    omega

theorem Eats.weaken (h : Eats allowed m cur next) (hle : n ≤ m) :
    Eats allowed n cur next := by
  obtain ⟨eaten, hcur, hallowed, hm⟩ := h
  exact ⟨eaten, hcur, hallowed, Nat.le_trans hle hm⟩

/-- An assertion eats nothing. -/
theorem Eats.of_assertion {p : Prop} [Decidable p]
    (h : next ∈ if p then [cur] else []) : Eats allowed 0 cur next := by
  split at h
  · rw [List.mem_singleton.mp h]
    exact Eats.stay rfl
  · cases h

variable {f : Cursor → List Cursor}

/-- What eats once eats as much if it is done once or more. -/
theorem exactly_eats (hf : ∀ cur, ∀ next ∈ f cur, Eats allowed n cur next)
    (k : Nat) (h : next ∈ exactly f k cur) :
    Eats allowed (if k = 0 then 0 else n) cur next := by
  induction k generalizing cur with
  | zero =>
      rw [exactly, List.mem_singleton] at h
      subst h
      exact Eats.stay rfl
  | succ k ih =>
      rw [exactly, List.mem_flatMap] at h
      obtain ⟨mid, hmid, hnext⟩ := h
      have heats := (hf cur mid hmid).trans (ih hnext)
      rw [if_neg (Nat.succ_ne_zero k)]
      exact heats.weaken (Nat.le_add_right ..)

/-- What is done up to some number of times eats what is allowed. -/
theorem upTo_eats (hf : ∀ cur, ∀ next ∈ f cur, Eats allowed n cur next)
    (greedy : Bool) (k : Nat) (h : next ∈ upTo f greedy k cur) :
    Eats allowed 0 cur next := by
  induction k generalizing cur with
  | zero =>
      rw [upTo, List.mem_singleton] at h
      subst h
      exact Eats.stay rfl
  | succ k ih =>
      have hcases : next = cur
          ∨ ∃ mid ∈ f cur, next ∈ upTo f greedy k mid := by
        rw [upTo] at h
        cases greedy with
        | true =>
            simp only [if_true, List.mem_append, List.mem_flatMap,
              List.mem_filter, List.mem_singleton] at h
            obtain ⟨mid, hmid, hnext⟩ | heq := h
            · exact Or.inr ⟨mid, hmid.1, hnext⟩
            · exact Or.inl heq
        | false =>
            simp only [Bool.false_eq_true, if_false, List.mem_cons,
              List.mem_flatMap, List.mem_filter] at h
            obtain heq | ⟨mid, hmid, hnext⟩ := h
            · exact Or.inl heq
            · exact Or.inr ⟨mid, hmid.1, hnext⟩
      obtain heq | ⟨mid, hmid, hnext⟩ := hcases
      · subst heq
        exact Eats.stay rfl
      · exact ((hf cur mid hmid).trans (ih hnext)).weaken (Nat.zero_le _)

/-- An expression that must match all of its characters, each an allowed
one. -/
def Regex.Solid (allowed : Char → Prop) : Regex → Prop
  | .empty | .atStart | .atEnd | .boundary _ => True
  | .one (.char c) => allowed c
  | .one _ | .alt _ _ | .ahead _ _ | .again _ => False
  | .seq r s => r.Solid allowed ∧ s.Solid allowed
  | .many _ least _ r => least ≠ 0 ∧ r.Solid allowed
  | .group _ r => r.Solid allowed

/-- The number of characters it has. -/
def Regex.size : Regex → Nat
  | .one _ => 1
  | .seq r s | .alt r s => r.size + s.size
  | .many _ _ _ r | .group _ r | .ahead _ r => r.size
  | .empty | .atStart | .atEnd | .boundary _ | .again _ => 0

/-- A character that must be there is eaten. -/
theorem Regex.run_char_eats {c : Char} (hc : allowed c)
    (h : next ∈ (one (.char c)).run cur) : Eats allowed 1 cur next := by
  cases hrest : cur.rest with
  | nil =>
      rw [run_one_nil hrest] at h
      cases h
  | cons d s =>
      by_cases hd : (CharTest.char c).holds d = true
      · rw [run_one_of_holds hrest hd, List.mem_singleton] at h
        subst h
        have heq : d = c := by simpa [CharTest.holds] using hd
        refine ⟨[d], ?_, ?_, Nat.le_refl 1⟩
        · rw [Cursor.skip_rest, hrest]
          rfl
        · intro x hx
          rw [List.mem_singleton.mp hx, heq]
          exact hc
      · rw [run_one_of_not hrest hd] at h
        cases h

/-- A match eats no fewer characters than the expression has. -/
theorem Regex.run_solid {r : Regex} (hsolid : r.Solid allowed)
    (h : next ∈ r.run cur) : Eats allowed r.size cur next := by
  induction r generalizing cur next with
  | empty =>
      rw [run, List.mem_singleton] at h
      subst h
      exact Eats.stay rfl
  | one test =>
      cases test with
      | char c => exact run_char_eats hsolid h
      | any => exact hsolid.elim
      | items wanted listed => exact hsolid.elim
  | seq r s ihr ihs =>
      rw [run, List.mem_flatMap] at h
      obtain ⟨mid, hmid, hnext⟩ := h
      exact (ihr hsolid.1 hmid).trans (ihs hsolid.2 hnext)
  | alt r s ihr ihs => exact hsolid.elim
  | many greedy least most r ih =>
      have honce : ∀ cur : Cursor, ∀ next ∈ r.run (cur.forget r.groups),
          Eats allowed r.size cur next := by
        intro cur next hnext
        have heats := ih hsolid.2 hnext
        exact heats
      rw [run, List.mem_flatMap] at h
      obtain ⟨mid, hmid, hnext⟩ := h
      have hleast := exactly_eats honce least hmid
      rw [if_neg hsolid.1] at hleast
      exact hleast.trans (upTo_eats honce greedy _ hnext)
  | group n r ih =>
      rw [run, List.mem_map] at h
      obtain ⟨stop, hstop, heq⟩ := h
      subst heq
      have heats := ih hsolid hstop
      exact heats
  | ahead wanted r ih => exact hsolid.elim
  | atStart => exact Eats.of_assertion h
  | atEnd => exact Eats.of_assertion h
  | boundary wanted => exact Eats.of_assertion h
  | again n => exact hsolid.elim

/-- A sequence is solid if its parts are. -/
theorem Regex.solid_sequence {rs : List Regex}
    (h : ∀ r ∈ rs, r.Solid allowed) : (sequence rs).Solid allowed := by
  induction rs with
  | nil => trivial
  | cons r rs ih =>
      rw [List.forall_mem_cons] at h
      exact ⟨h.1, ih h.2⟩

theorem Regex.size_sequence_append (rs ts : List Regex) :
    (sequence (rs ++ ts)).size = (sequence rs).size + (sequence ts).size := by
  induction rs with
  | nil => exact (Nat.zero_add _).symm
  | cons r rs ih =>
      show r.size + (sequence (rs ++ ts)).size
        = r.size + (sequence rs).size + (sequence ts).size
      rw [ih, Nat.add_assoc]

theorem Regex.size_sequence_reverse (rs : List Regex) :
    (sequence rs.reverse).size = (sequence rs).size := by
  induction rs with
  | nil => rfl
  | cons r rs ih =>
      have hone : (sequence [r]).size = r.size := Nat.add_zero _
      rw [List.reverse_cons, size_sequence_append, ih, hone, Nat.add_comm]
      rfl

end

end Creeper.Lib
