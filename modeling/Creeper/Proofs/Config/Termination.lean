/-
The config parser terminates, where it is defined.

# One call of parse_token

`Turned` says what a turn of its loop can do. The one character that is
put back is the one after a word, and there the loop is no longer in the
state it begins in, so it has taken another one before. `Behind` is this
as an invariant, and `parseTokenOn_shorter` what comes of it. Each turn
but the last takes a character, so the loop is left
(`parseTokenOn_leaves`), with what `parseToken` says
(`parseTokenOn_read`).

# All of parse

A turn of the loop of `parse` that does not leave it has made the stream
shorter, also where it leads to `continue`, so the loop is left
(`parseOn_leaves`) and ends where `parse` does (`parseOn_eq`). It may be
left in an undefined call, on the texts of `GoesOn`. On all others
`parse` returns (`parse_terminates_iff`).

What the config that is given to `parse` has in it already stays in front
of what is read, and changes nothing else (`foldl_onto`).
-/
import Creeper.ConfigStream
import Creeper.Proofs.Config.Blocks

namespace Creeper

open Lib

variable {input rest : IStream} {token : Token} {fuel turns : Nat}

-- ============================================================== one turn

/-- A turn of the loop of `parse_token`: out of the loop at the end of
the stream, on past a character, or out of it after one or before one. -/
inductive Turned : TokenLoop → Turn TokenLoop (Token × IStream) → Prop
  | ended {input after : IStream} {state : TokenParserState} {value : Str}
      {token : Token} (hinput : input.good = true → input.unread = [])
      (hafter : after.unread = input.unread)
      (hloop : parseTokenLoop state value [] = (token, []))
      (hends : token.ends = true) :
      Turned ⟨input, state, value⟩ (.leave (token, after))
  | on {taken unread value value' : Str} {c : Char}
      {state state' : TokenParserState}
      (hloop : parseTokenLoop state value (c :: unread)
        = parseTokenLoop state' value' unread) :
      Turned ⟨⟨true, taken, c :: unread⟩, state, value⟩
        (.again ⟨⟨true, c :: taken, unread⟩, state', value'⟩)
  | found {taken unread value : Str} {c : Char} {state : TokenParserState}
      {token : Token}
      (hloop : parseTokenLoop state value (c :: unread) = (token, unread)) :
      Turned ⟨⟨true, taken, c :: unread⟩, state, value⟩
        (.leave (token, ⟨true, c :: taken, unread⟩))
  | putBack {taken unread value : Str} {c : Char} {token : Token}
      (hloop : parseTokenLoop .tokenTypeNormal value (c :: unread)
        = (token, c :: unread)) :
      Turned ⟨⟨true, taken, c :: unread⟩, .tokenTypeNormal, value⟩
        (.leave (token, ⟨true, taken, c :: unread⟩))

/-- The end of the stream. -/
theorem tokenEnded_turned {after : IStream} {state : TokenParserState}
    {value : Str} (hinput : input.good = true → input.unread = [])
    (hafter : after.unread = input.unread) :
    Turned ⟨input, state, value⟩ (tokenEnded state value after) := by
  cases state <;> exact .ended hinput hafter rfl rfl

/-- The source looks for the tab twice. -/
theorem endsWord_iff (c : Char) : EndsWord c
    ↔ c = ' ' ∨ c = '\t' ∨ c = '\n' ∨ c = '\t' ∨ c = ';' ∨ c = '{'
      ∨ c = '}' := by
  unfold EndsWord
  constructor
  · intro hends
    rcases hends with rfl | rfl | rfl | rfl | rfl | rfl <;> simp
  · intro htwice
    rcases htwice with rfl | rfl | rfl | rfl | rfl | rfl | rfl <;> simp

/-- A character. -/
theorem tokenSwitch_turned (taken unread value : Str) (c : Char)
    (state : TokenParserState) :
    Turned ⟨⟨true, taken, c :: unread⟩, state, value⟩
      (tokenSwitch state value c ⟨true, c :: taken, unread⟩) := by
  cases state with
  | initialWhitespace =>
      unfold tokenSwitch
      simp only
      split_ifs
      all_goals first
        | exact .found (by simp [parseTokenLoop, *])
        | exact .on (by simp [parseTokenLoop, *])
  | tokenTypeNormal =>
      unfold tokenSwitch
      simp only
      split_ifs with hc
      · exact .putBack ((readsUntil_word value c unread).1
          ((endsWord_iff c).mpr hc))
      · exact .on ((readsUntil_word value c unread).2
          fun hends => hc ((endsWord_iff c).mp hends))
  | _ =>
      unfold tokenSwitch
      simp only
      split_ifs with hc
      · exact .found (if_pos hc)
      · exact .on (if_neg hc)

/-- All that a turn does. -/
theorem tokenTurn_turned (before : TokenLoop) :
    Turned before (tokenTurn before) := by
  obtain ⟨⟨good, taken, unread⟩, state, value⟩ := before
  cases good with
  | false => exact tokenEnded_turned nofun rfl
  | true =>
      cases unread with
      | nil => exact tokenEnded_turned (fun _ => rfl) rfl
      | cons c unread => exact tokenSwitch_turned taken unread value c state

-- ============================================================= parse_token

/-- The loop has taken something of what it was given, unless it is still
where it began. -/
def Behind (given : Nat) (before : TokenLoop) : Prop :=
  before.input.unread.length ≤ given
    ∧ (before.state ≠ .initialWhitespace →
      before.input.unread.length < given)

/-- A call has taken something, unless it is the last. -/
def Shorter (given : Nat) (after : Token × IStream) : Prop :=
  after.1.ends = false → after.2.unread.length < given

/-- The loop is on its way to what `parseToken` says of a text. -/
def Lexing (text : Str) (before : TokenLoop) : Prop :=
  before.input.good = true
    ∧ parseTokenLoop before.state before.value before.input.unread
      = parseToken text

/-- A call has done what `parseToken` says of a text, and the stream is
good, unless it is the last. -/
def HasRead (text : Str) (after : Token × IStream) : Prop :=
  parseToken text = (after.1, after.2.unread)
    ∧ (after.1.ends = false → after.2.good = true)

section Turns

variable {before : TokenLoop} {turn : Turn TokenLoop (Token × IStream)}

/-- A word is put back for a character, but it began with another. -/
theorem Turned.shorter {given : Nat} (h : Turned before turn)
    (hbehind : Behind given before) :
    turn.Meets (Behind given) (Shorter given) := by
  obtain ⟨hle, hlt⟩ := hbehind
  cases h with
  | ended _ _ _ hends =>
      intro hnot
      rw [hends] at hnot
      cases hnot
  | on => exact ⟨Nat.le_of_succ_le hle, fun _ => hle⟩
  | found => exact fun _ => hle
  | putBack => exact fun _ => hlt nofun

/-- A turn that does not leave the loop has read a character. -/
theorem Turned.progress (h : Turned before turn) :
    turn.Meets
      (fun next => next.input.unread.length < before.input.unread.length)
      (fun _ => True) := by
  cases h with
  | on => exact Nat.lt_succ_self _
  | _ => trivial

/-- A turn takes the loop on with the text. -/
theorem Turned.read {text : Str} (h : Turned before turn)
    (hlexing : Lexing text before) :
    turn.Meets (Lexing text) (HasRead text) := by
  obtain ⟨hgood, hread⟩ := hlexing
  cases h with
  | ended hinput hafter hloop hends =>
      refine ⟨?_, ?_⟩
      · rw [← hread]
        simp only
        rw [hafter, hinput hgood, hloop]
      · intro hnot
        rw [hends] at hnot
        cases hnot
  | on hloop => exact ⟨rfl, hloop.symm.trans hread⟩
  | found hloop => exact ⟨hread.symm.trans hloop, fun _ => rfl⟩
  | putBack hloop => exact ⟨hread.symm.trans hloop, fun _ => rfl⟩

end Turns

/-- What every turn of the loop of `parse_token` keeps. -/
theorem parseTokenOn_meets {P : TokenLoop → Prop}
    {Q : Token × IStream → Prop}
    (hturn : ∀ before turn, Turned before turn → P before →
      turn.Meets P Q)
    (hbegin : P ⟨input, .initialWhitespace, []⟩)
    (h : parseTokenOn fuel input = some (turns, token, rest)) :
    Q (token, rest) := by
  refine loop_meets ?_ hbegin h
  intro before turn hbefore heq
  cases heq
  exact hturn before _ (tokenTurn_turned before) hbefore

/-- A call of `parse_token` takes at least one character that it does not
put back, unless it is the last. -/
theorem parseTokenOn_shorter
    (h : parseTokenOn fuel input = some (turns, token, rest)) :
    Shorter input.unread.length (token, rest) := by
  have hbegin : Behind input.unread.length
      ⟨input, .initialWhitespace, []⟩ :=
    ⟨Nat.le_refl _, fun hne => absurd rfl hne⟩
  exact parseTokenOn_meets (fun _ _ hturned => hturned.shorter) hbegin h

/-- What is read is what `parseToken` says. -/
theorem parseTokenOn_read (hgood : input.good = true)
    (h : parseTokenOn fuel input = some (turns, token, rest)) :
    HasRead input.unread (token, rest) := by
  have hbegin : Lexing input.unread ⟨input, .initialWhitespace, []⟩ :=
    ⟨hgood, rfl⟩
  exact parseTokenOn_meets (fun _ _ hturned => hturned.read) hbegin h

/-- The loop of `parse_token` is left. -/
theorem parseTokenOn_leaves (input : IStream) :
    ∃ turns token rest, turns ≤ input.unread.length + 1
      ∧ ∀ fuel, input.unread.length < fuel →
        parseTokenOn fuel input = some (turns, token, rest) := by
  have hturn : ∀ before : TokenLoop, ∃ turn : Turn _ (Token × IStream),
      turn.Meets
        (fun next => next.input.unread.length < before.input.unread.length)
        (fun _ => True)
      ∧ ∀ fuel, before.input.unread.length < fuel →
        some (tokenTurn before) = some turn :=
    fun before => ⟨_, (tokenTurn_turned before).progress, fun _ _ => rfl⟩
  obtain ⟨turns, ⟨token, rest⟩, hle, hloop⟩ :=
    loop_leaves (fun before : TokenLoop => before.input.unread.length) hturn
      ⟨input, .initialWhitespace, []⟩
  exact ⟨turns, token, rest, hle, fun fuel hfuel =>
    hloop fuel fuel hfuel hfuel⟩

-- =================================================================== parse

/-- A call of `parse` has returned. -/
def Parsing.Returned : Parsing → Prop
  | .accepted _ => True
  | .rejected => True
  | _ => False

/-- A turn of the loop of `parse` after a call of `parse_token`: it goes
on, the token not being the last, or it leaves. -/
inductive ParseTurned (before : ParseLoop) (token : Token)
    (rest : IStream) : Turn ParseLoop Parsing → Prop
  | again {stack : List NginxConfig} {last : TokenType}
      (hends : token.ends = false)
      (hstep : parseStep before.configStack before.lastTokenType token
        = .going stack last) :
      ParseTurned before token rest (.again ⟨rest, stack, last⟩)
  | leave {parsing : Parsing}
      (hover : ∀ stack last, parsing ≠ .going stack last)
      (hstep : parseStep before.configStack before.lastTokenType token
        = parsing) :
      ParseTurned before token rest (.leave parsing)

/-- All that a turn does. -/
theorem parseBody_turned (before : ParseLoop) (token : Token)
    (rest : IStream) :
    ParseTurned before token rest (parseBody before token rest) := by
  unfold parseBody
  split
  · next stack last hstep => exact .again (not_ends_of_going hstep) hstep
  · next hover => exact .leave hover rfl

/-- The loop of `parse` is on its way to where a text leads. -/
def Leading (final : Parsing) (before : ParseLoop) : Prop :=
  before.input.good = true
    ∧ (parseTokens before.input.unread).foldl Parsing.advance
      (.going before.configStack before.lastTokenType) = final

section Turns

variable {before : ParseLoop} {turn : Turn ParseLoop Parsing}

/-- A turn that does not leave the loop has made the stream shorter. -/
theorem ParseTurned.progress (h : ParseTurned before token rest turn)
    (hshorter : Shorter before.input.unread.length (token, rest)) :
    turn.Meets
      (fun next => next.input.unread.length < before.input.unread.length)
      (fun _ => True) := by
  cases h with
  | again hends => exact hshorter hends
  | leave => trivial

/-- A turn takes the loop on to where the text leads. -/
theorem ParseTurned.leads {final : Parsing}
    (h : ParseTurned before token rest turn)
    (hread : HasRead before.input.unread (token, rest))
    (hleads : Leading final before) :
    turn.Meets (Leading final) (· = final) := by
  obtain ⟨hparse, hrest⟩ := hread
  obtain ⟨-, hfinal⟩ := hleads
  cases h with
  | again hends hstep =>
      refine ⟨hrest hends, ?_⟩
      have htokens : parseTokens before.input.unread
          = token :: parseTokens rest.unread :=
        Scanner.scan_of_not_ends hparse hends
      rw [htokens, List.foldl_cons, Parsing.advance, hstep] at hfinal
      exact hfinal
  | @leave parsing hover hstep =>
      have htokens : ∃ after,
          parseTokens before.input.unread = token :: after := by
        cases hends : token.ends with
        | true => exact ⟨[], Scanner.scan_of_ends hparse hends⟩
        | false => exact ⟨_, Scanner.scan_of_not_ends hparse hends⟩
      obtain ⟨after, htokens⟩ := htokens
      have hstays : ∀ token, parsing.advance token = parsing := by
        intro token
        cases parsing with
        | going stack last => exact absurd rfl (hover stack last)
        | _ => rfl
      rw [htokens, List.foldl_cons, Parsing.advance, hstep,
        foldl_of_over hstays] at hfinal
      exact hfinal

end Turns

/-- What every turn of the loop of `parse` keeps. -/
theorem parseOn_meets {P : ParseLoop → Prop} {Q : Parsing → Prop}
    {config : NginxConfig} {parsing : Parsing}
    (hturn : ∀ before calls token rest turn, P before →
      parseTokenOn fuel before.input = some (calls, token, rest) →
      ParseTurned before token rest turn → turn.Meets P Q)
    (hbegin : P ⟨input, [config], .start⟩)
    (h : parseOn fuel input config = some (turns, parsing)) :
    Q parsing := by
  refine loop_meets ?_ hbegin h
  intro before turn hbefore heq
  obtain ⟨⟨calls, token, rest⟩, hcall, rfl⟩ :=
    Option.map_eq_some_iff.mp heq
  exact hturn before calls token rest _ hbefore hcall
    (parseBody_turned before token rest)

/-- The loop of `parse` is left. -/
theorem parseOn_leaves (input : IStream) (config : NginxConfig) :
    ∃ turns parsing, turns ≤ input.unread.length + 1
      ∧ ∀ fuel, input.unread.length < fuel →
        parseOn fuel input config = some (turns, parsing) := by
  have hturn : ∀ before : ParseLoop, ∃ turn : Turn ParseLoop Parsing,
      turn.Meets
        (fun next => next.input.unread.length < before.input.unread.length)
        (fun _ => True)
      ∧ ∀ fuel, before.input.unread.length < fuel →
        parseTurn fuel before = some turn := by
    intro before
    obtain ⟨calls, token, rest, -, hcall⟩ :=
      parseTokenOn_leaves before.input
    refine ⟨parseBody before token rest, ?_, ?_⟩
    · apply (parseBody_turned before token rest).progress
      exact parseTokenOn_shorter (hcall _ (Nat.lt_succ_self _))
    · intro fuel hfuel
      unfold parseTurn
      rw [hcall fuel hfuel]
      rfl
  obtain ⟨turns, parsing, hle, hloop⟩ :=
    loop_leaves (fun before : ParseLoop => before.input.unread.length) hturn
      ⟨input, [config], .start⟩
  exact ⟨turns, parsing, hle, fun fuel hfuel =>
    hloop fuel fuel hfuel hfuel⟩

/-- Where the loop is left, on a stream that is good: where the tokens of
what is unread lead. -/
theorem parseOn_eq {config : NginxConfig} {parsing : Parsing}
    (hgood : input.good = true)
    (h : parseOn fuel input config = some (turns, parsing)) :
    parsing = (parseTokens input.unread).foldl Parsing.advance
      (.going [config] .start) := by
  have hbegin : Leading ((parseTokens input.unread).foldl Parsing.advance
      (.going [config] .start)) ⟨input, [config], .start⟩ :=
    ⟨hgood, rfl⟩
  apply parseOn_meets _ hbegin h
  intro before calls token rest turn hleads hcall hturned
  exact hturned.leads (parseTokenOn_read hleads.1 hcall) hleads

/-- A stream that is not good gives the end of the file at once. -/
theorem parseTokenOn_not_good (hgood : input.good = false) (fuel : Nat) :
    parseTokenOn (fuel + 1) input = some (1, ⟨.eof, []⟩, input) := by
  apply loop_of_leave
  unfold tokenTurn
  rw [hgood]
  rfl

theorem parseOn_not_good (hgood : input.good = false)
    (config : NginxConfig) (fuel : Nat) :
    parseOn (fuel + 1) input config = some (1, .rejected) := by
  apply loop_of_leave
  unfold parseTurn
  rw [parseTokenOn_not_good hgood]
  rfl

-- ================================================ a config with statements

section Onto

variable {config done : NginxConfig} {below stack : List NginxConfig}
  {last : TokenType} {words : List Str} {read tokens : List Token}

/-- What the statements of a block come after: those of the config, in
the block of the whole file, which is the last on the stack. -/
def inFront (config : NginxConfig) (below : List NginxConfig) :
    NginxConfig :=
  if below = [] then config else []

/-- A stack, with the config in its last block. -/
def onto (config : NginxConfig) : List NginxConfig → List NginxConfig
  | [] => []
  | block :: below => (inFront config below ++ block) :: onto config below

/-- Where `parse` is when the config that it fills has statements
already. -/
def Parsing.onto (config : NginxConfig) : Parsing → Parsing
  | .going stack last => .going (Creeper.onto config stack) last
  | .accepted result => .accepted (config ++ result)
  | .rejected => .rejected
  | .undefined => .undefined

/-- More statements in the top block. -/
theorem onto_concat (config done : NginxConfig)
    (statement : NginxConfigStatement) (below : List NginxConfig) :
    onto config ((done ++ [statement]) :: below)
      = ((inFront config below ++ done) ++ [statement])
        :: onto config below := by
  rw [onto, List.append_assoc]

/-- A closing brace between two statements. -/
theorem endBlock_onto (config : NginxConfig) (h : Under below read)
    (hlast : Between below done last) :
    parseStep (onto config (done :: below)) last .endBlock
      = (parseStep (done :: below) last .endBlock).onto config := by
  cases h with
  | nil => cases last <;> rfl
  | @cons below read outer words =>
      have hclosed := hlast.closed (List.cons_ne_nil _ below)
      rw [onto, onto_concat, step_endBlock hclosed, step_endBlock hclosed]
      show _ = Parsing.going (onto config _) _
      rw [onto_concat]
      rfl

/-- The end of the file between two statements. -/
theorem eof_onto (config : NginxConfig) (h : Under below read)
    (value : Str) :
    parseStep (onto config (done :: below)) last ⟨.eof, value⟩
      = (parseStep (done :: below) last ⟨.eof, value⟩).onto config := by
  cases h with
  | nil => cases last <;> rfl
  | cons => cases last <;> rfl

/-- A step is the same on top of the config. -/
theorem Emitted.step_onto {token : Token} (config : NginxConfig)
    (h : Emitted stack last read) (hspelled : Spelled token) :
    parseStep (onto config stack) last token
      = (parseStep stack last token).onto config := by
  cases h with
  | @between below read done last h hdone hlast =>
      have hnot := hlast.begins.not_normal
      cases hspelled with
      | @word word =>
          have hword := step_first_word hlast.begins done below word
          have hword' := step_first_word hlast.begins
            (inFront config below ++ done) (onto config below) word
          unfold Token.ofWord at hword hword'
          rw [onto, hword, hword', Parsing.onto, onto_concat]
      | mark hc =>
          cases hc with
          | endBlock => exact endBlock_onto config h hlast
          | _ =>
              cases last with
              | normal => exact absurd rfl hnot
              | _ => rfl
      | eof value => exact eof_onto config h value
      | _ => rfl
  | @word below read done words h hdone hwords =>
      cases hspelled with
      | @word word =>
          have hword := step_next_word done words below word
          have hword' := step_next_word (inFront config below ++ done) words
            (onto config below) word
          unfold Token.ofWord at hword hword'
          rw [onto_concat, hword, hword', Parsing.onto, onto_concat]
      | mark hc =>
          cases hc with
          | startBlock =>
              have hblock := step_startBlock done words below
              have hblock' := step_startBlock (inFront config below ++ done)
                words (onto config below)
              unfold Token.startBlock at hblock hblock'
              rw [onto_concat, hblock, hblock', Parsing.onto, onto,
                onto_concat]
              rfl
          | _ => rfl
      | _ => rfl
  | popped =>
      cases hspelled with
      | mark hc => cases hc <;> rfl
      | _ => rfl

/-- What is read is the same, on top of the config. -/
theorem foldl_onto (config : NginxConfig)
    (hspelled : ∀ token ∈ tokens, Spelled token) :
    tokens.foldl Parsing.advance (.going [config] .start)
      = (tokens.foldl Parsing.advance .begin).onto config := by
  induction tokens using List.reverseRecOn with
  | nil =>
      show Parsing.going [config] .start = .going [config ++ []] .start
      rw [List.append_nil]
  | append_singleton tokens token ih =>
      have htokens : ∀ token ∈ tokens, Spelled token :=
        fun t ht => hspelled t (List.mem_append_left _ ht)
      have hlast : Spelled token := hspelled token
        (List.mem_append_right _ (List.mem_singleton_self _))
      have hsound := sound_foldl htokens
      rw [List.foldl_append, List.foldl_append, ih htokens]
      generalize tokens.foldl Parsing.advance .begin = parsing at hsound ⊢
      cases parsing with
      | going stack last => exact Emitted.step_onto config hsound hlast
      | _ => rfl

end Onto

-- ============================================================= termination

section Termination

variable {config : NginxConfig} {parsing : Parsing}

theorem Parsing.returned_onto (config : NginxConfig) (parsing : Parsing) :
    (parsing.onto config).Returned ↔ parsing.Returned := by
  cases parsing <;> rfl

/-- A text is read to its end unless it goes on after a stray brace. -/
theorem parse_returned_iff (text : Str) :
    (parse text).Returned ↔ ¬ GoesOn text := by
  constructor
  · intro hreturned hgoes
    rw [undefined_of_goesOn hgoes] at hreturned
    exact hreturned
  · intro hnot
    cases hparse : parse text with
    | going => exact absurd hparse (parse_not_going text _ _)
    | accepted => trivial
    | rejected => trivial
    | undefined => exact absurd (goesOn_of_undefined hparse) hnot

/-- The loops do what `parse` does. -/
theorem parseOn_parse (hgood : input.good = true)
    (h : parseOn fuel input config = some (turns, parsing)) :
    parsing = (parse input.unread).onto config := by
  rw [parseOn_eq hgood h]
  exact foldl_onto config fun _ => spelled_of_mem

/-- Termination, exactly. For every stream, of any kind: a call of
`parse_token` returns, and has made the stream shorter unless it gives the
end of the file or an error; the loop of `parse` is left after no more
turns than there are characters, and one; and it is left by a return, not
by an undefined call, if and only if the text does not go on after a stray
closing brace with a word or another closing brace. -/
theorem parse_terminates_iff (input : IStream) (config : NginxConfig) :
    (∀ before : IStream, ∃ turns token rest,
      turns ≤ before.unread.length + 1
        ∧ (∀ fuel, before.unread.length < fuel →
          parseTokenOn fuel before = some (turns, token, rest))
        ∧ (token.type ≠ .eof → token.type ≠ .error →
          rest.unread.length < before.unread.length))
    ∧ ∃ turns parsing, turns ≤ input.unread.length + 1
      ∧ (∀ fuel, input.unread.length < fuel →
        parseOn fuel input config = some (turns, parsing))
      ∧ (parsing.Returned
        ↔ (input.good = true → ¬ GoesOn input.unread)) := by
  constructor
  · intro before
    obtain ⟨turns, token, rest, hle, hcall⟩ := parseTokenOn_leaves before
    refine ⟨turns, token, rest, hle, hcall, ?_⟩
    intro heof herror
    apply parseTokenOn_shorter (hcall _ (Nat.lt_succ_self _))
    unfold Token.ends
    simp [heof, herror]
  · obtain ⟨turns, parsing, hle, hrun⟩ := parseOn_leaves input config
    refine ⟨turns, parsing, hle, hrun, ?_⟩
    have hlast := hrun _ (Nat.lt_succ_self _)
    cases hgood : input.good with
    | false =>
        rw [parseOn_not_good hgood] at hlast
        cases hlast
        exact iff_of_true trivial nofun
    | true =>
        rw [parseOn_parse hgood hlast, Parsing.returned_onto,
          parse_returned_iff]
        exact ⟨fun hnot _ => hnot, fun hnot => hnot rfl⟩

/-- Two closing braces after a statement: with any fuel, `parse` does not
return. -/
theorem parse_not_returned :
    ¬ ∃ fuel turns parsing,
      parseOn fuel (.ofText "a;\x7d\x7d".toList) []
          = some (turns, parsing)
        ∧ parsing.Returned := by
  intro hexists
  obtain ⟨fuel, turns, parsing, hrun, hreturned⟩ := hexists
  rw [parseOn_parse rfl hrun, Parsing.returned_onto, parse_returned_iff]
    at hreturned
  exact hreturned goesOn_two_braces

/-- A comment is a turn of its own. -/
example : parseOn 6 (.ofText "#a\n#b".toList) []
    = some (2, .rejected) := rfl

end Termination

end Creeper
