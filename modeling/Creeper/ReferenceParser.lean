/-
Parsers with the documented behaviour of Boost.Beast.

Nothing here is the server's code, and nothing about the server is
proved of these parsers alone: the results take any `Beast.Documented`
or `Beast.Delimited` parser. These show that there are such parsers, and
are what concrete connections are computed with. They read a head, a
request line of three words, and as much of the announced body as has
arrived. `reference` takes the length from a `Content-Length` written so,
and `caseless` from one in any case; a body in chunks they do not read.
-/
import Creeper.Lib.Http1
import Creeper.RequestParser

namespace Creeper

open Lib Lib.Http1

/-- The method and the target of a request line. -/
def readRequestLine (line : Str) : Option (Str × Str) :=
  match line.splitOn ' ' with
  | [method, target, version] =>
      if version = httpVersion then some (method, target) else none
  | _ => none

/-- A request line is its method, its target and the version. -/
theorem readRequestLine_sound {line method target : Str}
    (h : readRequestLine line = some (method, target)) :
    method ++ " ".toList ++ target ++ " ".toList ++ httpVersion = line := by
  unfold readRequestLine at h
  split at h
  · next method' target' version hwords =>
    split at h
    · next hversion =>
      cases h
      have hline : [' '].intercalate (line.splitOn ' ') = line :=
        List.intercalate_splitOn ' '
      rw [hwords, hversion] at hline
      rw [← hline]
      simp [List.intercalate_cons_cons]
    · cases h
  · cases h

/-- The length of the body: what `Content-Length` says, nothing without
it. -/
def bodyLength (fields : List (Str × Str)) : Option Nat :=
  match fields.lookup "Content-Length".toList with
  | some value => readDecimal value
  | none => some 0

/-- The message of a head, with the part of its body that has arrived,
the length of the body found in the fields by `lengthOf`. -/
def messageBy (lengthOf : List (Str × Str) → Option Nat) (head : Head)
    (arrived : Str) : Option BeastMessage := do
  let (method, target) ← readRequestLine head.start
  let n ← lengthOf head.fields
  some { version := 11, methodString := method, target := target
         fields := head.fields.map fun f => ⟨f.1, f.2⟩
         body := arrived.take n }

/-- A parser that finds the length of the body by `lengthOf`, of messages
that are not in chunks, with heads as long as they like. -/
def referenceBy (lengthOf : List (Str × Str) → Option Nat) : Beast where
  put s := (readHead s).bind fun r => messageBy lengthOf r.1 r.2
  Wire header body m :=
    ∃ head : Head, head.Clean ∧ header = head.render
      ∧ lengthOf head.fields = some body.length
      ∧ messageBy lengthOf head body = some m
  Chunked _ _ _ := False
  WithinLimit _ := True

/-- The reference parser. -/
def reference : Beast := referenceBy bodyLength

section

variable {lengthOf : List (Str × Str) → Option Nat} {head : Head}

/-- A head is read, whatever follows it. -/
theorem referenceBy_put (hclean : head.Clean) (arrived : Str) :
    (referenceBy lengthOf).put (head.render ++ arrived)
      = messageBy lengthOf head arrived := by
  show (readHead (head.render ++ arrived)).bind _ = _
  rw [readHead_render hclean]
  rfl

/-- Of what has arrived, the announced length is looked at. -/
theorem messageBy_append {body : Str}
    (hlength : lengthOf head.fields = some body.length) (rest : Str) :
    messageBy lengthOf head (body ++ rest)
      = messageBy lengthOf head body := by
  unfold messageBy
  rw [hlength]
  simp only [Option.bind_eq_bind, Option.bind_some, List.take_left,
    List.take_length]

/-- What a message is made of. -/
theorem messageBy_eq_some_iff {arrived : Str} {m : BeastMessage} :
    messageBy lengthOf head arrived = some m
      ↔ ∃ method target n, readRequestLine head.start = some (method, target)
        ∧ lengthOf head.fields = some n
        ∧ m = { version := 11, methodString := method, target := target
                fields := head.fields.map fun f => ⟨f.1, f.2⟩
                body := arrived.take n } := by
  unfold messageBy
  simp only [Option.bind_eq_bind, Option.bind_eq_some_iff,
    Option.some.injEq, Prod.exists]
  constructor
  · intro h
    obtain ⟨method, target, hline, n, hlength, heq⟩ := h
    exact ⟨method, target, n, hline, hlength, heq.symm⟩
  · intro h
    obtain ⟨method, target, n, hline, hlength, heq⟩ := h
    exact ⟨method, target, hline, n, hlength, heq.symm⟩

/-- The same head with another body. -/
theorem messageBy_other {arrived : Str} {m : BeastMessage}
    (h : messageBy lengthOf head arrived = some m) (arrived' : Str) :
    ∃ m', messageBy lengthOf head arrived' = some m'
      ∧ m'.version = m.version ∧ m'.methodString = m.methodString
      ∧ m'.fields = m.fields := by
  obtain ⟨method, target, n, hline, hlength, rfl⟩ :=
    messageBy_eq_some_iff.mp h
  exact ⟨_, messageBy_eq_some_iff.mpr
    ⟨method, target, n, hline, hlength, rfl⟩, rfl, rfl, rfl⟩

/-- All its messages have their bodies as they are. -/
theorem referenceBy_whole_iff {header body : Str} {m : BeastMessage} :
    (referenceBy lengthOf).Whole header body m
      ↔ (referenceBy lengthOf).Wire header body m := by
  constructor
  · intro h
    cases h with
    | wire hwire => exact hwire
    | chunked hchunked => exact hchunked.elim
  · exact .wire

variable (lengthOf) in
/-- Such a parser behaves as documented. -/
theorem referenceBy_documented : (referenceBy lengthOf).Documented where
  needMore := by
    intro header body m part hwhole hpart hne
    obtain ⟨head, hclean, rfl, -, -⟩ := referenceBy_whole_iff.mp hwhole
    show (readHead part).bind _ = none
    rw [readHead_prefix_eq_none hclean hpart hne]
    rfl
  partialBody := by
    intro header body m part hwire hpart
    obtain ⟨head, hclean, rfl, -, hmessage⟩ := hwire
    obtain ⟨m', hm', -⟩ := messageBy_other hmessage part
    rw [referenceBy_put hclean, hm']
    rfl
  oneMessage := by
    intro header body m rest hwhole
    obtain ⟨head, hclean, rfl, hlength, hmessage⟩ :=
      referenceBy_whole_iff.mp hwhole
    rw [List.append_assoc, referenceBy_put hclean,
      messageBy_append hlength, hmessage]

end

/-- The reference parser behaves as documented. -/
theorem reference_documented : reference.Documented :=
  referenceBy_documented bodyLength

-- ================================================================= any case

/-- The name of a field is this one, in any case. -/
def named (name : Str) (f : Str × Str) : Bool :=
  f.1.map Char.toLower = name

/-- What `Content-Length` says in any case, nothing without it. A body in
chunks has no length. -/
def caselessLength (fields : List (Str × Str)) : Option Nat :=
  if fields.any (named "transfer-encoding".toList) then none
  else
    match fields.find? (named "content-length".toList) with
    | some f => readDecimal f.2
    | none => some 0

/-- The parser that takes `Content-Length` in any case. -/
def caseless : Beast := referenceBy caselessLength

/-- What a message declares is what the parser looks for. -/
theorem caselessLength_of_declared {fields : List (Str × Str)} {n k : Nat}
    (h : declaredLength (fields.map fun f => ⟨f.1, f.2⟩) = some n)
    (hlength : caselessLength fields = some k) : k = n := by
  unfold declaredLength at h
  rw [List.find?_map] at h
  obtain ⟨header, hfind, hvalue⟩ := Option.bind_eq_some_iff.mp h
  obtain ⟨f, hf, rfl⟩ := Option.map_eq_some_iff.mp hfind
  have hfound : fields.find? (named "content-length".toList) = some f := hf
  have hdecimal : readDecimal f.2 = some n := hvalue
  unfold caselessLength at hlength
  split at hlength
  · cases hlength
  · rw [hfound] at hlength
    simp only at hlength
    rw [hdecimal] at hlength
    exact (Option.some.inj hlength).symm

/-- The head tells where the body ends. -/
theorem caseless_bodyEnds {header body body' : Str} {m m' : BeastMessage}
    (hwire : caseless.Wire header body m)
    (hwire' : caseless.Wire header body' m') (hfront : body <+: body') :
    body = body' := by
  obtain ⟨head, hclean, rfl, hlength, -⟩ := hwire
  obtain ⟨head', hclean', hrender, hlength', -⟩ := hwire'
  -- one rendering is the rendering of one head
  have hread := readHead_render hclean []
  rw [hrender, readHead_render hclean' []] at hread
  cases hread
  rw [hlength] at hlength'
  exact hfront.eq_of_length (Option.some.inj hlength')

/-- It tells where a message ends as documented. -/
theorem caseless_delimited : caseless.Delimited where
  toDocumented := referenceBy_documented caselessLength
  partialChunks := by
    intro header b m part hchunked
    exact hchunked.elim
  headerRead := by
    intro header body rest m m' hwhole hput
    obtain ⟨head, hclean, rfl, -, hmessage⟩ :=
      referenceBy_whole_iff.mp hwhole
    obtain ⟨x, hx, hversion, hmethod, -⟩ := messageBy_other hmessage rest
    have hread := (referenceBy_put hclean rest).symm.trans hput
    rw [hx] at hread
    cases hread
    exact ⟨hversion, hmethod⟩
  accepts := by
    intro raw m' hput
    obtain ⟨⟨head, rest⟩, hread, hmessage⟩ :=
      Option.bind_eq_some_iff.mp hput
    obtain ⟨hclean, rfl⟩ := readHead_sound hread
    obtain ⟨method, target, n, hline, hlength, -⟩ :=
      messageBy_eq_some_iff.mp hmessage
    have hwire : ∀ body : Str, body.length = n → ∃ m,
        caseless.Whole head.render body m := by
      intro body hn
      obtain ⟨m, hm, -⟩ := messageBy_other hmessage body
      exact ⟨m, .wire ⟨head, hclean, rfl, by rw [hlength, hn], hm⟩⟩
    rcases Nat.lt_or_ge rest.length n with hshort | hlong
    · -- the body that is missing is filled up with anything
      obtain ⟨m, hm⟩ := hwire
        (rest ++ List.replicate (n - rest.length) ' ') (by simp; omega)
      exact ⟨_, _, m, hm, Or.inl ⟨rest, List.prefix_append .., rfl⟩⟩
    · obtain ⟨m, hm⟩ := hwire (rest.take n) (by simp [hlong])
      refine ⟨_, _, m, hm, Or.inr ⟨rest.drop n, ?_⟩⟩
      rw [List.append_assoc, List.take_append_drop]
  blankLine := by
    intro header body m hwhole
    obtain ⟨head, -, rfl, -, -⟩ := referenceBy_whole_iff.mp hwhole
    exact renderBlock_suffix (List.cons_ne_nil _ _)
  contentLength := by
    intro header body m n hwhole hdeclared
    obtain ⟨head, hclean, rfl, hlength, hmessage⟩ :=
      referenceBy_whole_iff.mp hwhole
    obtain ⟨method, target, n', hline, hlength', rfl⟩ :=
      messageBy_eq_some_iff.mp hmessage
    have hn := caselessLength_of_declared hdeclared hlength
    rw [hlength] at hlength'
    cases hlength'
    exact ⟨hn, List.take_length⟩
  bodyEnds := by
    intro header body body' m m' hwhole hwhole' hfront
    exact caseless_bodyEnds (referenceBy_whole_iff.mp hwhole)
      (referenceBy_whole_iff.mp hwhole') hfront

/-- In standard form a message that was read is written as it was. -/
theorem standardHeader_of_message {lengthOf : List (Str × Str) → Option Nat}
    {head : Head} {arrived : Str} {m : BeastMessage}
    (h : messageBy lengthOf head arrived = some m) :
    m.standardHeader = head.render := by
  obtain ⟨method, target, n, hline, -, rfl⟩ := messageBy_eq_some_iff.mp h
  have hstart := readRequestLine_sound hline
  have hfields : (head.fields.map fun f => (⟨f.1, f.2⟩ : Header)).flatMap
        (fun f => f.name ++ ": ".toList ++ f.value ++ crlf)
      = (head.fields.map fieldLine).flatMap (· ++ ['\r', '\n']) := by
    rw [List.flatMap_map, List.flatMap_map]
    apply List.flatMap_congr
    intro f _
    simp [fieldLine, crlf]
  unfold BeastMessage.standardHeader Head.render Lib.renderBlock Head.lines
  rw [hstart, hfields, List.flatMap_cons]
  rfl

/-- It reads what is written anew as documented. -/
theorem caseless_standard : caseless.Standard where
  toDelimited := caseless_delimited
  standardForm := by
    intro header body m hwire _ _
    obtain ⟨head, hclean, rfl, hlength, hmessage⟩ := hwire
    rw [standardHeader_of_message hmessage]
    exact ⟨head, hclean, rfl, hlength, hmessage⟩
  standardChunks := by
    intro header b m hchunked
    exact hchunked.elim
  lastChunk := by
    intro header b m hchunked
    exact hchunked.elim
  overLimit := by
    intro header body m _ hlimit
    exact absurd trivial hlimit

end Creeper
