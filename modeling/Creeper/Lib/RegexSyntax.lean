/-
The patterns of regular expressions (ECMA-262, 15.10.1, with the named
classes in brackets that C++ adds). A closing bracket or brace that closes
nothing stands for itself (Annex B, and the implementations).

A pattern is read token by token and the tokens go to a `Builder`, which
has a `Frame` for every parenthesis that is open. `compile` is `none` for
a pattern that is not well formed: a parenthesis that does not close, a
quantifier behind nothing it could repeat, an escape or a bracket
expression that is none, a reference to a group there is not.

`compile_literal_append` is the compilation of a pattern that begins with
characters that stand for themselves and dots.
-/
import Creeper.Lib.Decimal
import Creeper.Lib.Regex

namespace Creeper.Lib.Pattern

-- =================================================================== tokens

/-- What a parenthesis opens. -/
inductive Opening
  | capture
  | plain
  | ahead (wanted : Bool)
  deriving DecidableEq

/-- A piece of a pattern; only an atom can be repeated. -/
inductive Token
  | atom (r : Regex)
  | assertion (r : Regex)
  | quantifier (greedy : Bool) (least : Nat) (most : Option Nat)
  | opening (opening : Opening)
  | closing
  | bar
  deriving DecidableEq

/-- The characters that do not stand for themselves. -/
def syntaxCharacters : List Char := "^$\\.*+?()[\x7b|".toList

/-- A character that stands for itself in a bracket expression. -/
def single (c : Char) : ClassItem := .range c c

/-- The value of a hexadecimal digit. -/
def hexDigit (c : Char) : Option Nat :=
  if c.isDigit then some (c.toNat - '0'.toNat)
  else if 'a' ≤ c ∧ c ≤ 'f' then some (c.toNat - 'a'.toNat + 10)
  else if 'A' ≤ c ∧ c ≤ 'F' then some (c.toNat - 'A'.toNat + 10)
  else none

/-- A character given by `n` hexadecimal digits. -/
def readHex (n : Nat) (s : List Char) : Option (ClassItem × List Char) :=
  if s.length < n then none
  else ((s.take n).mapM hexDigit).map fun digits =>
    (single (Char.ofNat (digits.foldl (fun v d => 16 * v + d) 0)), s.drop n)

/-- What the escapes mean that are allowed in brackets and outside: `c`
is the character behind the backslash. -/
def readCharacterEscape (c : Char) (s : List Char) :
    Option (ClassItem × List Char) :=
  match c with
  | 'd' => some (.named true .digit, s)
  | 'D' => some (.named false .digit, s)
  | 's' => some (.named true .space, s)
  | 'S' => some (.named false .space, s)
  | 'w' => some (.named true .word, s)
  | 'W' => some (.named false .word, s)
  | 'f' => some (single '\x0c', s)
  | 'n' => some (single '\n', s)
  | 'r' => some (single '\r', s)
  | 't' => some (single '\t', s)
  | 'v' => some (single '\x0b', s)
  | '0' => if s.head?.any Char.isDigit then none else some (single '\x00', s)
  | 'c' =>
      match s with
      | letter :: s =>
          if letter.isAlpha then
            some (single (Char.ofNat (letter.toNat % 32)), s)
          else none
      | [] => none
  | 'x' => readHex 2 s
  | 'u' => readHex 4 s
  | c => if c.isDigit then none else some (single c, s)

/-- An escape outside brackets, behind its backslash. -/
def readEscape : List Char → Option (Token × List Char)
  | [] => none
  | c :: s =>
      if c = 'b' then some (.assertion (.boundary true), s)
      else if c = 'B' then some (.assertion (.boundary false), s)
      else if c.isDigit ∧ c ≠ '0' then
        (readDecimal ((c :: s).takeWhile Char.isDigit)).map fun n =>
          (.atom (.again n), (c :: s).dropWhile Char.isDigit)
      else
        (readCharacterEscape c s).map fun found =>
          (.atom (.one (.items true [found.1])), found.2)

/-- The names of the classes. -/
def classNames : List (List Char × ClassName) :=
  [("alnum".toList, .alnum), ("alpha".toList, .alpha),
    ("blank".toList, .blank), ("cntrl".toList, .cntrl),
    ("digit".toList, .digit), ("graph".toList, .graph),
    ("lower".toList, .lower), ("print".toList, .print),
    ("punct".toList, .punct), ("space".toList, .space),
    ("upper".toList, .upper), ("xdigit".toList, .xdigit),
    ("d".toList, .digit), ("s".toList, .space), ("w".toList, .word)]

/-- One item of a bracket expression, not looking for a range. -/
def readClassItem : List Char → Option (ClassItem × List Char)
  | '\\' :: 'b' :: s => some (single '\x08', s)
  | '\\' :: c :: s => readCharacterEscape c s
  | ['\\'] => none
  | '[' :: ':' :: s =>
      match s.dropWhile (· ≠ ':') with
      | ':' :: ']' :: rest =>
          (classNames.lookup (s.takeWhile (· ≠ ':'))).map fun name =>
            (.named true name, rest)
      | _ => none
  | '[' :: '.' :: c :: '.' :: ']' :: s => some (single c, s)
  | '[' :: '=' :: c :: '=' :: ']' :: s => some (single c, s)
  | c :: s => some (single c, s)
  | [] => none

/-- The range between two items, which must be characters in order. -/
def rangeOf : ClassItem → ClassItem → Option ClassItem
  | .range a b, .range c d =>
      if a = b ∧ c = d ∧ a ≤ c then some (.range a c) else none
  | _, _ => none

/-- The items of a bracket expression up to the bracket that closes it. -/
def readClassItems : Nat → List Char → Option (List ClassItem × List Char)
  | 0, _ => none
  | _ + 1, ']' :: s => some ([], s)
  | n + 1, s =>
      match readClassItem s with
      | none => none
      | some (first, '-' :: ']' :: rest) =>
          some ([first, single '-'], rest)
      | some (first, '-' :: rest) => do
          let (last, rest) ← readClassItem rest
          let item ← rangeOf first last
          let (items, rest) ← readClassItems n rest
          some (item :: items, rest)
      | some (first, rest) => do
          let (items, rest) ← readClassItems n rest
          some (first :: items, rest)

/-- A bracket expression, behind its opening bracket. -/
def readClass (s : List Char) : Option (Token × List Char) :=
  match s with
  | '^' :: s => (readClassItems s.length s).map fun found =>
      (.atom (.one (.items false found.1)), found.2)
  | s => (readClassItems s.length s).map fun found =>
      (.atom (.one (.items true found.1)), found.2)

/-- A quantifier, which is greedy unless a `?` follows. -/
def readGreed (least : Nat) (most : Option Nat) :
    List Char → Token × List Char
  | '?' :: s => (.quantifier false least most, s)
  | s => (.quantifier true least most, s)

/-- A quantifier in braces, behind the opening one. -/
def readBraces (s : List Char) : Option (Token × List Char) := do
  let least ← readDecimal (s.takeWhile Char.isDigit)
  match s.dropWhile Char.isDigit with
  | '\x7d' :: rest => some (readGreed least (some least) rest)
  | ',' :: '\x7d' :: rest => some (readGreed least none rest)
  | ',' :: rest =>
      let most ← readDecimal (rest.takeWhile Char.isDigit)
      match rest.dropWhile Char.isDigit with
      | '\x7d' :: rest =>
          if least ≤ most then some (readGreed least (some most) rest)
          else none
      | _ => none
  | _ => none

/-- What an opening parenthesis opens, and what follows. -/
def readOpening : List Char → Token × List Char
  | '?' :: ':' :: s => (.opening .plain, s)
  | '?' :: '=' :: s => (.opening (.ahead true), s)
  | '?' :: '!' :: s => (.opening (.ahead false), s)
  | s => (.opening .capture, s)

/-- A token that begins with a syntax character. -/
def readSyntax (c : Char) (s : List Char) : Option (Token × List Char) :=
  match c with
  | '^' => some (.assertion .atStart, s)
  | '$' => some (.assertion .atEnd, s)
  | '.' => some (.atom (.one .any), s)
  | '|' => some (.bar, s)
  | '(' => some (readOpening s)
  | ')' => some (.closing, s)
  | '*' => some (readGreed 0 none s)
  | '+' => some (readGreed 1 none s)
  | '?' => some (readGreed 0 (some 1) s)
  | '\x7b' => readBraces s
  | '[' => readClass s
  | '\\' => readEscape s
  | _ => none

/-- The token at the front. -/
def readToken : List Char → Option (Token × List Char)
  | [] => none
  | c :: s =>
      if c ∈ syntaxCharacters then readSyntax c s
      else some (.atom (.one (.char c)), s)

/-- The tokens of a pattern, at most `n`. -/
def readTokens : Nat → List Char → Option (List Token)
  | _, [] => some []
  | 0, _ :: _ => none
  | n + 1, s => do
      let (token, rest) ← readToken s
      let tokens ← readTokens n rest
      some (token :: tokens)

-- ================================================================= patterns

/-- What is known of a parenthesis that is open, or of the whole
pattern. -/
structure Frame where
  opening : Opening
  /-- The number it has if it captures. -/
  number : Nat
  /-- The alternatives in front of the one that is being read. -/
  before : Option Regex
  /-- The terms of that one, the last first, and whether a quantifier may
  follow. -/
  terms : List (Bool × Regex)

namespace Frame

variable (f : Frame)

/-- What stands between the parentheses. -/
def regex : Regex :=
  let last := Regex.sequence (f.terms.reverse.map Prod.snd)
  match f.before with
  | none => last
  | some r => .alt r last

/-- The term that the parentheses make. -/
def closed : Bool × Regex :=
  match f.opening with
  | .capture => (true, .group f.number f.regex)
  | .plain => (true, f.regex)
  | .ahead wanted => (false, .ahead wanted f.regex)

end Frame

/-- A pattern with its groups. -/
structure Compiled where
  regex : Regex
  groups : Nat
  deriving DecidableEq

/-- A pattern that is being read. -/
structure Builder where
  frame : Frame
  /-- The frames around it, the nearest first. -/
  outer : List Frame
  groups : Nat

namespace Builder

/-- Nothing has been read. -/
def start : Builder := ⟨⟨.plain, 0, none, []⟩, [], 0⟩

variable (b : Builder)

/-- Another term. -/
def push (term : Bool × Regex) : Builder :=
  { b with frame := { b.frame with terms := term :: b.frame.terms } }

/-- Another token. -/
def step (b : Builder) : Token → Option Builder
  | .atom r => some (b.push (true, r))
  | .assertion r => some (b.push (false, r))
  | .quantifier greedy least most =>
      match b.frame.terms with
      | (true, r) :: terms =>
          some { b with
            frame := { b.frame with
              terms := (false, .many greedy least most r) :: terms } }
      | _ => none
  | .opening opening =>
      some
        { frame := ⟨opening, b.groups + 1, none, []⟩
          outer := b.frame :: b.outer
          groups := if opening = .capture then b.groups + 1
            else b.groups }
  | .closing =>
      match b.outer with
      | [] => none
      | frame :: outer =>
          some (push { b with frame := frame, outer := outer }
            b.frame.closed)
  | .bar =>
      some { b with
        frame := { b.frame with before := some b.frame.regex, terms := [] } }

/-- The pattern has been read. -/
def finish : Option Compiled :=
  if b.outer = [] ∧ ∀ n ∈ b.frame.regex.references, n ≤ b.groups then
    some ⟨b.frame.regex, b.groups⟩
  else none

end Builder

/-- The expression a pattern stands for. -/
def compile (pattern : List Char) : Option Compiled := do
  let tokens ← readTokens pattern.length pattern
  let b ← tokens.foldlM Builder.step .start
  b.finish

/-- The first match in a text. -/
def Compiled.search (re : Compiled) (text : List Char) : Option Cursor :=
  re.regex.search [] text

-- ================================================================= literals

/-- A character that stands for itself, or a dot. -/
def IsLiteral (c : Char) : Prop := c = '.' ∨ c ∉ syntaxCharacters

instance (c : Char) : Decidable (IsLiteral c) :=
  inferInstanceAs (Decidable (_ ∨ _))

/-- What it matches. -/
def testOf (c : Char) : CharTest := if c = '.' then .any else .char c

/-- It matches itself. -/
theorem testOf_holds_self (c : Char) : (testOf c).holds c = true := by
  unfold testOf
  split
  · next hdot =>
    rw [hdot]
    decide
  · simp [CharTest.holds]

variable {l s : List Char} {tokens : List Token}

theorem readToken_literal {c : Char} (h : IsLiteral c) (s : List Char) :
    readToken (c :: s) = some (.atom (.one (testOf c)), s) := by
  unfold readToken testOf
  rcases h with hdot | hno
  · subst hdot
    rfl
  · have hdot : c ≠ '.' := by
      intro heq
      rw [heq] at hno
      exact hno (by decide)
    rw [if_neg hdot]
    exact if_neg hno

/-- Characters that are read one by one where no `?` follows. -/
theorem readTokens_append {token : Char → Token} (hquery : '?' ∉ l)
    (hs : s.head? ≠ some '?')
    (h : ∀ c ∈ l, ∀ t : List Char, t.head? ≠ some '?' →
      readToken (c :: t) = some (token c, t)) (n : Nat) :
    readTokens (l.length + n) (l ++ s)
      = (readTokens n s).map (l.map token ++ ·) := by
  induction l with
  | nil => simp
  | cons c l ih =>
      rw [List.forall_mem_cons] at h
      rw [List.mem_cons, not_or] at hquery
      have hnext : (l ++ s).head? ≠ some '?' := by
        cases l with
        | nil => exact hs
        | cons d l =>
            intro hd
            rw [List.cons_append, List.head?_cons] at hd
            exact hquery.2 (by rw [← Option.some.inj hd]; simp)
      rw [List.length_cons, Nat.add_right_comm, List.cons_append, readTokens]
      · rw [h.1 _ hnext]
        simp only [Option.bind_eq_bind, Option.bind_some, ih hquery.2 h.2]
        cases readTokens n s with
        | none => rfl
        | some tokens => rfl
      · intro hnil
        cases hnil

/-- What compiles is read first. -/
theorem compile_append {token : Char → Token} (hquery : '?' ∉ l)
    (hs : s.head? ≠ some '?')
    (h : ∀ c ∈ l, ∀ t : List Char, t.head? ≠ some '?' →
      readToken (c :: t) = some (token c, t))
    (htokens : readTokens s.length s = some tokens) :
    compile (l ++ s)
      = ((l.map token).foldlM Builder.step .start).bind fun b =>
        (tokens.foldlM Builder.step b).bind Builder.finish := by
  unfold compile
  rw [List.length_append, readTokens_append hquery hs h, htokens]
  simp only [Option.map_some, Option.bind_eq_bind, Option.bind_some,
    List.foldlM_append, Option.bind_assoc]

/-- The builder that has read literals. -/
def Builder.ofLiterals (l : List Char) : Builder :=
  ⟨⟨.plain, 0, none, (l.map fun c => (true, .one (testOf c))).reverse⟩,
    [], 0⟩

/-- Atoms go in front of the terms. -/
theorem foldlM_atoms (rs : List Regex) (b : Builder) :
    (rs.map .atom).foldlM Builder.step b
      = some { b with
          frame := { b.frame with
            terms := (rs.map fun r => (true, r)).reverse
              ++ b.frame.terms } } := by
  induction rs generalizing b with
  | nil => rfl
  | cons r rs ih =>
      rw [List.map_cons, List.foldlM_cons]
      show (some (b.push (true, r))).bind _ = _
      rw [Option.bind_some, ih]
      simp [Builder.push]

/-- A pattern that begins with literals. -/
theorem compile_literal_append (h : ∀ c ∈ l, IsLiteral c)
    (hs : s.head? ≠ some '?')
    (htokens : readTokens s.length s = some tokens) :
    compile (l ++ s)
      = (tokens.foldlM Builder.step (.ofLiterals l)).bind
          Builder.finish := by
  have hquery : '?' ∉ l := fun hmem =>
    absurd (h _ hmem) (by decide)
  have hatoms := foldlM_atoms (l.map fun c => .one (testOf c)) .start
  rw [List.map_map] at hatoms
  have hread : (l.map fun c => Token.atom (.one (testOf c))).foldlM
      Builder.step .start = some (.ofLiterals l) := by
    refine hatoms.trans ?_
    simp [Builder.ofLiterals, Builder.start, Function.comp_def]
  rw [compile_append hquery hs
    (fun c hc t _ => readToken_literal (h c hc) t) htokens, hread]
  rfl

/-- What literals compile to with terms behind them that refer to no
group. -/
theorem finish_literals (l : List Char) (terms : List (Bool × Regex))
    (groups : Nat)
    (hterms : (terms.reverse.map Prod.snd).flatMap Regex.references = []) :
    Builder.finish ⟨⟨.plain, 0, none,
        terms ++ (l.map fun c => (true, .one (testOf c))).reverse⟩,
        [], groups⟩
      = some ⟨.sequence ((l.map testOf).map .one
          ++ terms.reverse.map Prod.snd), groups⟩ := by
  have hregex : Frame.regex ⟨.plain, 0, none,
      terms ++ (l.map fun c => (true, .one (testOf c))).reverse⟩
      = .sequence ((l.map testOf).map .one
        ++ terms.reverse.map Prod.snd) := by
    simp [Frame.regex, Function.comp_def]
  have hnone : (Regex.sequence ((l.map testOf).map .one
      ++ terms.reverse.map Prod.snd)).references = [] := by
    rw [Regex.references_sequence, List.flatMap_append, hterms,
      List.append_nil, List.flatMap_eq_nil_iff]
    intro r hr
    obtain ⟨t, -, rfl⟩ := List.mem_map.mp hr
    rfl
  unfold Builder.finish
  rw [hregex, hnone]
  exact if_pos ⟨rfl, by simp⟩

-- ==================================================================== solids

/-- Of the characters that mean something, those that leave nothing
out and add nothing. -/
def solidMarks : List Char := "+()^$".toList

/-- A character that stands for itself, or such a mark. -/
def IsSolid (c : Char) : Prop := c ∉ syntaxCharacters ∨ c ∈ solidMarks

instance (c : Char) : Decidable (IsSolid c) :=
  inferInstanceAs (Decidable (_ ∨ _))

/-- The token it is. -/
def solidToken (c : Char) : Token :=
  match c with
  | '+' => .quantifier true 1 none
  | '(' => .opening .capture
  | ')' => .closing
  | '^' => .assertion .atStart
  | '$' => .assertion .atEnd
  | c => .atom (.one (.char c))

theorem solidToken_of_not_mem {c : Char} (h : c ∉ syntaxCharacters) :
    solidToken c = .atom (.one (.char c)) := by
  unfold solidToken
  split
  all_goals first | rfl | exact absurd (by decide) h

theorem readToken_solid {c : Char} (h : IsSolid c) {t : List Char}
    (ht : t.head? ≠ some '?') :
    readToken (c :: t) = some (solidToken c, t) := by
  rcases h with hno | hmark
  · rw [solidToken_of_not_mem hno]
    exact if_neg hno
  · -- a `?` behind `+` or `(` would belong to it
    have hgreed : readGreed 1 none t = (.quantifier true 1 none, t) := by
      unfold readGreed
      split
      · exact absurd rfl ht
      · rfl
    have hopening : readOpening t = (.opening .capture, t) := by
      unfold readOpening
      split
      · exact absurd rfl ht
      · exact absurd rfl ht
      · exact absurd rfl ht
      · rfl
    have hcases : c = '+' ∨ c = '(' ∨ c = ')' ∨ c = '^' ∨ c = '$' := by
      simpa [solidMarks] using hmark
    rcases hcases with rfl | rfl | rfl | rfl | rfl
    · exact congrArg some hgreed
    · exact congrArg some hopening
    · rfl
    · rfl
    · rfl

namespace Builder

variable {allowed : Char → Prop} {b b' : Builder} {n : Nat}

/-- All frames, the innermost first. -/
def frames (b : Builder) : List Frame := b.frame :: b.outer

/-- The terms of all frames. -/
def allTerms (b : Builder) : List Regex :=
  b.frames.flatMap fun f => f.terms.map Prod.snd

/-- Solid terms and `n` characters have been read. -/
structure Solid (allowed : Char → Prop) (n : Nat) (b : Builder) : Prop where
  plain : ∀ f ∈ b.frames, f.before = none
    ∧ (f.opening = .plain ∨ f.opening = .capture)
  terms : ∀ r ∈ b.allTerms, r.Solid allowed
  size : (Regex.sequence b.allTerms).size = n

theorem solid_start : start.Solid allowed 0 where
  plain := by simp [frames, start]
  terms := by simp [allTerms, frames, start]
  size := rfl

/-- Another solid term. -/
theorem Solid.push (hb : b.Solid allowed n) {r : Regex} (flag : Bool)
    (hr : r.Solid allowed) :
    (b.push (flag, r)).Solid allowed (n + r.size) where
  plain := by
    intro f hf
    rcases List.mem_cons.mp hf with rfl | hf
    · exact hb.plain b.frame (List.mem_cons_self ..)
    · exact hb.plain f (List.mem_cons_of_mem _ hf)
  terms := by
    show ∀ r' ∈ r :: b.allTerms, r'.Solid allowed
    rw [List.forall_mem_cons]
    exact ⟨hr, hb.terms⟩
  size := by
    show r.size + (Regex.sequence b.allTerms).size = n + r.size
    rw [hb.size, Nat.add_comm]

/-- A quantifier that asks for one at least. -/
theorem Solid.many (hb : b.Solid allowed n) {r : Regex} {flag flag' : Bool}
    {terms : List (Bool × Regex)} (hterms : b.frame.terms = (flag, r) :: terms)
    {least : Nat} (hleast : least ≠ 0) (greedy : Bool) (most : Option Nat) :
    Solid allowed n { b with
      frame := { b.frame with
        terms := (flag', .many greedy least most r) :: terms } } := by
  have hall : b.allTerms
      = r :: (terms.map Prod.snd ++ b.outer.flatMap fun f =>
        f.terms.map Prod.snd) := by
    simp [allTerms, frames, hterms]
  have hsolid := hb.terms
  have hsize := hb.size
  rw [hall] at hsolid hsize
  rw [List.forall_mem_cons] at hsolid
  refine ⟨?_, ?_, ?_⟩
  · intro f hf
    rcases List.mem_cons.mp hf with rfl | hf
    · exact hb.plain b.frame (List.mem_cons_self ..)
    · exact hb.plain f (List.mem_cons_of_mem _ hf)
  · show ∀ r' ∈ .many greedy least most r :: (terms.map Prod.snd ++ _),
      r'.Solid allowed
    rw [List.forall_mem_cons]
    exact ⟨⟨hleast, hsolid.1⟩, hsolid.2⟩
  · exact hsize

/-- Another parenthesis that captures. -/
theorem Solid.capture (hb : b.Solid allowed n) (number groups : Nat) :
    Solid allowed n ⟨⟨.capture, number, none, []⟩, b.frame :: b.outer,
      groups⟩ where
  plain := by
    intro f hf
    rcases List.mem_cons.mp hf with rfl | hf
    · exact ⟨rfl, Or.inr rfl⟩
    · exact hb.plain f hf
  terms := hb.terms
  size := hb.size

/-- The innermost parenthesis is closed. -/
theorem Solid.closing (hb : b.Solid allowed n) {f : Frame}
    {outer : List Frame} (houter : b.outer = f :: outer) :
    ((Builder.mk f outer b.groups).push b.frame.closed).Solid allowed
      n := by
  have hall : b.allTerms = b.frame.terms.map Prod.snd
      ++ (Builder.mk f outer b.groups).allTerms := by
    simp [allTerms, frames, houter]
  have hsolid := hb.terms
  have hsize := hb.size
  rw [hall] at hsolid hsize
  rw [List.forall_mem_append] at hsolid
  rw [Regex.size_sequence_append] at hsize
  obtain ⟨hbefore, hopening⟩ := hb.plain b.frame (List.mem_cons_self ..)
  have hregex : b.frame.regex
      = .sequence (b.frame.terms.reverse.map Prod.snd) := by
    unfold Frame.regex
    rw [hbefore]
  have hinner : b.frame.regex.Solid allowed := by
    rw [hregex]
    apply Regex.solid_sequence
    intro r hr
    exact hsolid.1 r (by simpa using hr)
  have hcount : b.frame.regex.size
      = (Regex.sequence (b.frame.terms.map Prod.snd)).size := by
    rw [hregex, List.map_reverse, Regex.size_sequence_reverse]
  have hrest : (Builder.mk f outer b.groups).Solid allowed
      (Regex.sequence (Builder.mk f outer b.groups).allTerms).size := by
    refine ⟨?_, hsolid.2, rfl⟩
    intro g hg
    apply hb.plain
    rw [frames, houter]
    exact List.mem_cons_of_mem _ hg
  have hclosed : ∃ flag r, b.frame.closed = (flag, r) ∧ r.Solid allowed
      ∧ r.size = b.frame.regex.size := by
    unfold Frame.closed
    rcases hopening with hplain | hcapture
    · rw [hplain]
      exact ⟨true, _, rfl, hinner, rfl⟩
    · rw [hcapture]
      exact ⟨true, _, rfl, hinner, rfl⟩
  obtain ⟨flag, r, heq, hr, hrsize⟩ := hclosed
  have hpush := hrest.push flag hr
  rw [hrsize, hcount, Nat.add_comm, hsize] at hpush
  rw [heq]
  exact hpush

/-- One solid token more. -/
theorem Solid.step (hb : b.Solid allowed n) {c : Char} (hc : IsSolid c)
    (hallowed : c ∉ syntaxCharacters → allowed c)
    (hstep : b.step (solidToken c) = some b') :
    b'.Solid allowed (n + if c ∈ syntaxCharacters then 0 else 1) := by
  rcases hc with hno | hmark
  · rw [solidToken_of_not_mem hno] at hstep
    cases hstep
    have hone : Regex.Solid allowed (.one (.char c)) := hallowed hno
    rw [if_neg hno]
    exact hb.push true hone
  · have hcases : c = '+' ∨ c = '(' ∨ c = ')' ∨ c = '^' ∨ c = '$' := by
      simpa [solidMarks] using hmark
    have hsyntax : c ∈ syntaxCharacters := by
      rcases hcases with rfl | rfl | rfl | rfl | rfl <;> decide
    have hstart : Regex.Solid allowed .atStart := trivial
    have hend : Regex.Solid allowed .atEnd := trivial
    rw [if_pos hsyntax, Nat.add_zero]
    rcases hcases with rfl | rfl | rfl | rfl | rfl
    · -- a quantifier, behind what it repeats
      simp only [solidToken, Builder.step] at hstep
      split at hstep
      · next r terms hterms =>
        cases hstep
        exact hb.many hterms Nat.one_ne_zero true none
      · cases hstep
    · cases hstep
      exact hb.capture ..
    · simp only [solidToken, Builder.step] at hstep
      split at hstep
      · cases hstep
      · next f outer houter =>
        cases hstep
        exact hb.closing houter
    · cases hstep
      exact hb.push false hstart
    · cases hstep
      exact hb.push false hend

/-- The tokens of solid characters: what has been read has as many
characters as stand for themselves. -/
theorem Solid.foldlM {l : List Char} (hb : b.Solid allowed n)
    (hl : ∀ c ∈ l, IsSolid c ∧ (c ∉ syntaxCharacters → allowed c))
    (hfold : (l.map solidToken).foldlM Builder.step b = some b') :
    b'.Solid allowed (n + l.countP (· ∉ syntaxCharacters)) := by
  induction l generalizing b n with
  | nil =>
      cases hfold
      exact hb
  | cons c l ih =>
      rw [List.forall_mem_cons] at hl
      rw [List.map_cons, List.foldlM_cons] at hfold
      obtain ⟨mid, hstep, hrest⟩ := Option.bind_eq_some_iff.mp hfold
      have hmid := hb.step hl.1.1 hl.1.2 hstep
      have hb' := ih hmid hl.2 hrest
      rw [List.countP_cons]
      by_cases hc : c ∈ syntaxCharacters
      · simpa [hc, Nat.add_assoc] using hb'
      · simpa [hc, Nat.add_assoc, Nat.add_comm] using hb'

end Builder

end Creeper.Lib.Pattern
