/-
What of a text is in its config.

`layoutStep` is a machine that takes the layout out of a text, character
by character: blanks and comments between tokens, and carriage returns
outside quotes. It knows nothing of tokens but where one begins.
`transduce_tokens` runs it beside the parser: what it writes are the
tokens, comments aside, and then what the file ends in. That is nothing,
unless the file ends in a word. The parser takes the end of the file for
the end of the word and drops it, so an accepted text is the text of its
config if and only if it does not end in a word (`lossless_iff`).
-/
import Creeper.Proofs.Config.Blocks

namespace Creeper

open Lib

variable {input rest text value : Str} {token : Token} {config : NginxConfig}

-- ================================================================ the text

/-- Where the machine is in a text. -/
inductive LayoutMode
  | between
  | word
  | quoted (quote : Char)
  | comment
  deriving DecidableEq

/-- Layout is space, tab and line feed outside quotes, and comments from a
`#` where a token can begin to the end of the line; quotes, too, open only
there. A carriage return outside quotes is left out. -/
def layoutStep : LayoutMode → Char → LayoutMode × Str
  | .between, c =>
      if c = '#' then (.comment, [])
      else if c = '"' ∨ c = '\'' then (.quoted c, [c])
      else if c = ' ' ∨ c = '\t' ∨ c = '\n' ∨ c = '\r' then (.between, [])
      else if c = ';' ∨ c = '{' ∨ c = '}' then (.between, [c])
      else (.word, [c])
  | .word, c =>
      if c = ' ' ∨ c = '\t' ∨ c = '\n' then (.between, [])
      else if c = ';' ∨ c = '{' ∨ c = '}' then (.between, [c])
      else if c = '\r' then (.word, [])
      else (.word, [c])
  | .quoted quote, c =>
      (if c = quote then .between else .quoted quote, [c])
  | .comment, c =>
      (if c = '\n' ∨ c = '\r' then .between else .comment, [])

/-- The text with its layout removed. -/
def withoutLayout (text : Str) : Str :=
  (transduce layoutStep .between text).2

/-- The text ends in a word. -/
def EndsInWord (text : Str) : Prop :=
  (transduce layoutStep .between text).1 = .word

-- ================================================================ the tree

/-- A character of a word that is not a carriage return. -/
def writtenChar (c : Char) : Str := if c = '\r' then [] else [c]

/-- A token of the tree: quoted as it is, a word without its carriage
returns. -/
def writtenWord (word : Str) : Str :=
  if word.head? = some '"' ∨ word.head? = some '\'' then word
  else word.flatMap writtenChar

/-- A token written out. -/
def Token.written (token : Token) : Str :=
  if token.type = .normal then writtenWord token.value else token.value

/-- The tokens and the punctuation of a config, in document order. -/
def NginxConfig.written (config : NginxConfig) : Str :=
  (NginxConfig.lexemes config).flatMap Token.written

-- ======================================================= character by character

section Characters

variable {c q d : Char} {inside word : Str}

theorem layoutStep_layout (hc : IsLayout c) :
    layoutStep .between c = (.between, []) := by
  rcases hc with rfl | rfl | rfl | rfl <;> rfl

theorem layoutStep_mark {type : TokenType} (hc : Mark c type) :
    layoutStep .between c = (.between, [c]) := by
  cases hc <;> rfl

theorem layoutStep_quote {state : TokenParserState} (hq : Quote q state) :
    layoutStep .between q = (.quoted q, [q]) := by
  cases hq <;> rfl

theorem layoutStep_startsWord (hc : StartsWord c) :
    layoutStep .between c = (.word, [c]) := by
  have hlayout : ¬ (c = ' ' ∨ c = '\t' ∨ c = '\n' ∨ c = '\r') :=
    hc.not_layout
  unfold layoutStep
  simp only
  rw [if_neg hc.not_comment, if_neg, if_neg hlayout, if_neg]
  · intro hor
    rcases hor with rfl | rfl | rfl
    · exact hc.not_mark _ .statementEnd
    · exact hc.not_mark _ .startBlock
    · exact hc.not_mark _ .endBlock
  · intro hor
    rcases hor with rfl | rfl
    · exact hc.not_quote _ .double
    · exact hc.not_quote _ .single

/-- In a word. -/
theorem layoutStep_word (hc : ¬ EndsWord c) :
    layoutStep .word c = (.word, writtenChar c) := by
  have hblank : ¬ (c = ' ' ∨ c = '\t' ∨ c = '\n') := by
    intro hor
    rcases hor with rfl | rfl | rfl
    · exact hc (by decide)
    · exact hc (by decide)
    · exact hc (by decide)
  have hmark : ¬ (c = ';' ∨ c = '{' ∨ c = '}') := by
    intro hor
    rcases hor with rfl | rfl | rfl
    · exact hc (by decide)
    · exact hc (by decide)
    · exact hc (by decide)
  unfold layoutStep writtenChar
  simp only
  rw [if_neg hblank, if_neg hmark]
  split <;> rfl

/-- What ends a word is read as between two tokens. -/
theorem layoutStep_endsWord (hd : EndsWord d) :
    layoutStep .word d = layoutStep .between d := by
  rcases hd with rfl | rfl | rfl | rfl | rfl | rfl <;> rfl

theorem layoutStep_comment (hc : ¬ EndsComment c) :
    layoutStep .comment c = (.comment, []) := by
  have hline : ¬ (c = '\n' ∨ c = '\r') := hc
  unfold layoutStep
  simp only
  rw [if_neg hline]

theorem layoutStep_endsComment (hc : EndsComment c) :
    layoutStep .comment c = (.between, []) := by
  rcases hc with rfl | rfl <;> rfl

theorem layoutStep_inside (hc : c ≠ q) :
    layoutStep (.quoted q) c = (.quoted q, [c]) := by
  unfold layoutStep
  simp only
  rw [if_neg hc]

theorem layoutStep_close (q : Char) :
    layoutStep (.quoted q) q = (.between, [q]) := by
  unfold layoutStep
  simp only
  rw [if_true]

/-- A word as the machine writes it. -/
theorem writtenWord_word (hc : StartsWord c) (word : Str) :
    writtenWord (c :: word) = c :: word.flatMap writtenChar := by
  have hquote : ¬ ((c :: word).head? = some '"'
      ∨ (c :: word).head? = some '\'') := by
    intro hor
    rcases hor with h | h
    · cases h
      exact hc.not_quote _ .double
    · cases h
      exact hc.not_quote _ .single
  have hreturn : c ≠ '\r' := by
    intro heq
    subst heq
    exact hc.not_layout (by decide)
  unfold writtenWord
  rw [if_neg hquote, List.flatMap_cons]
  unfold writtenChar
  rw [if_neg hreturn]
  rfl

theorem writtenWord_quoted {state : TokenParserState} (hq : Quote q state)
    (inside : Str) : writtenWord (q :: inside ++ [q]) = q :: inside ++ [q] := by
  cases hq
  · exact if_pos (Or.inr rfl)
  · exact if_pos (Or.inl rfl)

end Characters

-- ========================================================== token by token

section Tokens

variable {inside word : Str} {c q d : Char} {mode : LayoutMode}

/-- Nothing is written inside a comment. -/
theorem transduce_comment (h : ∀ x ∈ inside, ¬ EndsComment x) :
    transduce layoutStep .comment inside = (.comment, []) := by
  have hstay := transduce_stay fun a ha => layoutStep_comment (h a ha)
  rw [hstay, List.flatMap_eq_nil_iff.mpr fun _ _ => rfl]

/-- Everything is written inside quotes. -/
theorem transduce_quoted (h : ∀ x ∈ inside, x ≠ q) :
    transduce layoutStep (.quoted q) inside = (.quoted q, inside) := by
  have hstay := transduce_stay fun a ha => layoutStep_inside (h a ha)
  rw [hstay, List.flatMap_singleton']

/-- A word is written without its carriage returns. -/
theorem transduce_word (h : ∀ x ∈ word, ¬ EndsWord x) :
    transduce layoutStep .word word = (.word, word.flatMap writtenChar) :=
  transduce_stay fun a ha => layoutStep_word (h a ha)

/-- What ends a word is read as between two tokens. -/
theorem transduce_endsWord (hd : EndsWord d) (input : Str) :
    transduce layoutStep .word (d :: input)
      = transduce layoutStep .between (d :: input) := by
  rw [transduce_cons, layoutStep_endsWord hd, ← transduce_cons]

/-- Nothing is written of a comment. -/
def Token.shown (token : Token) : Str :=
  if token.type = .comment then [] else token.written

theorem written_cons (token : Token) (tokens : List Token) :
    (visible (token :: tokens)).flatMap Token.written
      = token.shown ++ (visible tokens).flatMap Token.written := by
  unfold visible Token.shown
  by_cases hcomment : token.type = .comment
  · rw [List.filter_cons_of_neg (by simp [hcomment]), if_pos hcomment]
    rfl
  · rw [List.filter_cons_of_pos (by simp [hcomment]), if_neg hcomment,
      List.flatMap_cons]

/-- The machine writes a token, and goes on between two tokens. -/
theorem Lexes.transduce_next (h : Lexes input token rest)
    (hends : token.ends = false) :
    transduce layoutStep .between input
      = ((transduce layoutStep .between rest).1,
        token.shown ++ (transduce layoutStep .between rest).2) := by
  induction h with
  | layout hc _ ih =>
      rw [transduce_cons, layoutStep_layout hc, ih hends]
      rfl
  | mark hc =>
      rw [transduce_cons, layoutStep_mark hc]
      cases hc <;> rfl
  | comment hinside hc =>
      have hopen : layoutStep .between '#' = (.comment, []) := rfl
      rw [transduce_cons, hopen, transduce_append,
        transduce_comment hinside, transduce_cons,
        layoutStep_endsComment hc]
      rfl
  | @quoted q state inside input hq hinside =>
      have hshown : Token.shown ⟨.normal, q :: inside ++ [q]⟩
          = q :: inside ++ [q] := writtenWord_quoted hq inside
      rw [transduce_cons, layoutStep_quote hq, transduce_append,
        transduce_quoted hinside, transduce_cons, layoutStep_close, hshown]
      simp only [List.append_assoc, List.cons_append, List.nil_append]
  | @word c word d input hc hword hd =>
      have hshown : Token.shown ⟨.normal, c :: word⟩
          = c :: word.flatMap writtenChar := writtenWord_word hc word
      rw [transduce_cons, layoutStep_startsWord hc, transduce_append,
        transduce_word hword, transduce_endsWord hd, hshown]
      simp only [List.cons_append, List.nil_append]
  | atEnd => cases hends
  | inComment => cases hends
  | inWord => cases hends
  | inQuotes => cases hends

/-- At the end of the file the machine writes nothing, unless the file
ends in a word. -/
theorem Lexes.transduce_last (h : Lexes input token rest)
    (heof : token.type = .eof) :
    (transduce layoutStep .between input).2 = []
      ↔ ¬ (transduce layoutStep .between input).1 = .word := by
  induction h with
  | layout hc _ ih =>
      rw [transduce_cons, layoutStep_layout hc]
      exact ih heof
  | mark hc => cases hc <;> cases heof
  | comment => cases heof
  | quoted => cases heof
  | word => cases heof
  | atEnd => decide
  | inComment hinside =>
      have hopen : layoutStep .between '#' = (.comment, []) := rfl
      rw [transduce_cons, hopen, transduce_comment hinside]
      decide
  | inWord hc hword =>
      rw [transduce_cons, layoutStep_startsWord hc, transduce_word hword]
      simp
  | inQuotes => cases heof

/-- The machine writes the tokens of a text, comments aside, and then what
the file ends in. -/
theorem transduce_tokens {pre : List Token}
    (h : parseTokens text = pre ++ [⟨.eof, value⟩]) :
    ∃ last, withoutLayout text = (visible pre).flatMap Token.written ++ last
      ∧ (last = [] ↔ ¬ EndsInWord text) := by
  unfold withoutLayout EndsInWord
  induction text using parseTokens_induction generalizing pre with
  | hends input token rest hlexes hends =>
      rw [parseTokens_of_ends hlexes hends] at h
      cases pre with
      | nil =>
          obtain ⟨rfl, -⟩ := List.cons.inj h
          exact ⟨_, rfl, hlexes.transduce_last rfl⟩
      | cons first pre =>
          have hempty := (List.cons.inj h).2
          exact absurd hempty.symm (List.append_ne_nil_of_right_ne_nil pre
            (List.cons_ne_nil _ _))
  | hnext input token rest hlexes hends ih =>
      rw [parseTokens_of_not_ends hlexes hends] at h
      cases pre with
      | nil =>
          obtain ⟨rfl, -⟩ := List.cons.inj h
          cases hends
      | cons first pre =>
          obtain ⟨rfl, hrest⟩ := List.cons.inj h
          obtain ⟨last, hwritten, hlast⟩ := ih hrest
          refine ⟨last, ?_, ?_⟩
          · rw [hlexes.transduce_next hends, hwritten, written_cons,
              List.append_assoc]
          · rw [hlexes.transduce_next hends]
            exact hlast

end Tokens

-- ============================================================ the statement

/-- Nothing that is accepted is lost, exactly. For every text that is
accepted: the tokens and the punctuation of the config, written out in
document order, are the text with its layout removed, if and only if the
text does not end in a word. -/
theorem lossless_iff (text : Str) (config : NginxConfig)
    (h : parse text = .accepted config) :
    NginxConfig.written config = withoutLayout text ↔ ¬ EndsInWord text := by
  obtain ⟨-, pre, value, htokens, hread⟩ := visible_of_accepted h
  obtain ⟨last, hwritten, hlast⟩ := transduce_tokens htokens
  unfold NginxConfig.written
  rw [hwritten, hread, ← hlast]
  exact List.self_eq_append_right

/-- Comments, carriage returns and quotes, and no word at the end. -/
def layoutText : Str := "a 'x;  '\r\x7b b\rc;#d\n\x7d#e".toList

theorem lossless_at_comment :
    ∃ config, parse layoutText = .accepted config
      ∧ NginxConfig.written config = withoutLayout layoutText := by
  have haccepted : (parse layoutText).result.isSome := by decide +kernel
  obtain ⟨config, hconfig⟩ := Option.isSome_iff_exists.mp haccepted
  have h := Parsing.result_eq_some_iff.mp hconfig
  refine ⟨config, h, (lossless_iff layoutText config h).mpr ?_⟩
  unfold EndsInWord
  decide +kernel

/-- The file ends in a directive that is not ended. -/
theorem directive_lost :
    ¬ ∀ config, parse "a;b".toList = .accepted config →
      NginxConfig.written config = withoutLayout "a;b".toList := by
  intro hclaim
  have hwritten : (parse "a;b".toList).result.map NginxConfig.written
      = some "a;".toList := by decide +kernel
  obtain ⟨config, hresult, heq⟩ := Option.map_eq_some_iff.mp hwritten
  have htext := hclaim config (Parsing.result_eq_some_iff.mp hresult)
  rw [heq] at htext
  revert htext
  decide +kernel

end Creeper
