/-
What the tokens of a text are.

`Lexes` says in words what one call of `parse_token` does: it skips
layout, and then there is a punctuation mark, a comment, a quoted string,
a word, or the end of the file, in a comment, a word, a quoted string or
none of these. `parseToken_lexes` and `Lexes.parseToken` make it the
same as the loop over states, so that everything about the tokens of a
text is a case analysis of `Lexes`.

A `Lexeme` is a string that is one token: what the parser collects are
lexemes (`spelled_of_mem`), and a lexeme is read back wherever something
that ends a word follows it (`parseTokens_lexeme`).
-/
import Creeper.ConfigParser

namespace Creeper

open Lib

variable {input rest value inside word : Str} {token : Token} {c q d : Char}

-- ============================================================== characters

/-- What is skipped between tokens. -/
def IsLayout (c : Char) : Prop := c = ' ' ∨ c = '\t' ∨ c = '\n' ∨ c = '\r'

/-- What a comment ends with. -/
def EndsComment (c : Char) : Prop := c = '\n' ∨ c = '\r'

/-- What a word ends before. -/
def EndsWord (c : Char) : Prop :=
  c = ' ' ∨ c = '\t' ∨ c = '\n' ∨ c = ';' ∨ c = '{' ∨ c = '}'

/-- A mark that is a token, and the type it has. -/
inductive Mark : Char → TokenType → Prop
  | startBlock : Mark '{' .startBlock
  | endBlock : Mark '}' .endBlock
  | statementEnd : Mark ';' .statementEnd

/-- A quote, and the state the loop is in inside. -/
inductive Quote : Char → TokenParserState → Prop
  | single : Quote '\'' .singleQuote
  | double : Quote '"' .doubleQuote

/-- What a word can begin with: anything that means nothing else. -/
structure StartsWord (c : Char) : Prop where
  not_layout : ¬ IsLayout c
  not_mark : ∀ type, ¬ Mark c type
  not_quote : ∀ state, ¬ Quote c state
  not_comment : c ≠ '#'

instance : DecidablePred IsLayout := fun _ => inferInstanceAs (Decidable (_ ∨ _))

instance : DecidablePred EndsComment :=
  fun _ => inferInstanceAs (Decidable (_ ∨ _))

instance : DecidablePred EndsWord := fun _ => inferInstanceAs (Decidable (_ ∨ _))

/-- Every character is one of these. -/
theorem character_cases (c : Char) : IsLayout c ∨ (∃ type, Mark c type)
    ∨ (∃ state, Quote c state) ∨ c = '#' ∨ StartsWord c := by
  by_cases hlayout : IsLayout c
  · exact Or.inl hlayout
  · by_cases hmark : ∃ type, Mark c type
    · exact Or.inr (Or.inl hmark)
    · by_cases hquote : ∃ state, Quote c state
      · exact Or.inr (Or.inr (Or.inl hquote))
      · by_cases hcomment : c = '#'
        · exact Or.inr (Or.inr (Or.inr (Or.inl hcomment)))
        · exact Or.inr (Or.inr (Or.inr (Or.inr ⟨hlayout,
            not_exists.mp hmark, not_exists.mp hquote, hcomment⟩)))

-- ================================================================ the loop

theorem loop_layout (hc : IsLayout c) :
    parseTokenLoop .initialWhitespace value (c :: input)
      = parseTokenLoop .initialWhitespace value input := by
  rcases hc with rfl | rfl | rfl | rfl <;> rfl

theorem loop_mark {type : TokenType} (hc : Mark c type) :
    parseTokenLoop .initialWhitespace value (c :: input)
      = (⟨type, [c]⟩, input) := by
  cases hc <;> rfl

theorem loop_quote {state : TokenParserState} (hq : Quote q state) :
    parseTokenLoop .initialWhitespace value (q :: input)
      = parseTokenLoop state [q] input := by
  cases hq <;> rfl

theorem loop_word (hc : StartsWord c) :
    parseTokenLoop .initialWhitespace value (c :: input)
      = parseTokenLoop .tokenTypeNormal (value ++ [c]) input := by
  have hlayout : ¬ (c = ' ' ∨ c = '\t' ∨ c = '\n' ∨ c = '\r') :=
    hc.not_layout
  rw [parseTokenLoop, if_neg, if_neg, if_neg hc.not_comment, if_neg, if_neg,
    if_neg, if_neg hlayout]
  · intro heq
    subst heq
    exact hc.not_mark _ .statementEnd
  · intro heq
    subst heq
    exact hc.not_quote _ .single
  · intro heq
    subst heq
    exact hc.not_quote _ .double
  · intro heq
    subst heq
    exact hc.not_mark _ .endBlock
  · intro heq
    subst heq
    exact hc.not_mark _ .startBlock

/-- Inside quotes the loop reads up to the quote. -/
theorem readsUntil_quote {state : TokenParserState} (hq : Quote q state) :
    ReadsUntil (parseTokenLoop state) (· = q)
      fun value c input => (⟨.normal, value ++ [c]⟩, input) := by
  cases hq <;>
    exact fun value c input => ⟨fun hc => if_pos hc, fun hc => if_neg hc⟩

/-- In a comment it reads up to the end of the line. -/
theorem readsUntil_comment :
    ReadsUntil (parseTokenLoop .tokenTypeComment) EndsComment
      fun value _ input => (⟨.comment, value⟩, input) :=
  fun _ _ _ => ⟨fun hc => if_pos hc, fun hc => if_neg hc⟩

/-- In a word it reads up to what ends the word, which it puts back. -/
theorem readsUntil_word :
    ReadsUntil (parseTokenLoop .tokenTypeNormal) EndsWord
      fun value c input => (⟨.normal, value⟩, c :: input) :=
  fun _ _ _ => ⟨fun hc => if_pos hc, fun hc => if_neg hc⟩

theorem loop_quote_nil {state : TokenParserState} (hq : Quote q state) :
    parseTokenLoop state value [] = (⟨.error, value⟩, []) := by
  cases hq <;> rfl

-- ================================================================ in words

/-- One call of `parse_token`: the input, the token, and what is left. -/
inductive Lexes : Str → Token → Str → Prop
  | layout {c : Char} {input : Str} {token : Token} {rest : Str}
      (hc : IsLayout c) (h : Lexes input token rest) :
      Lexes (c :: input) token rest
  | mark {c : Char} {type : TokenType} {input : Str} (hc : Mark c type) :
      Lexes (c :: input) ⟨type, [c]⟩ input
  | comment {inside : Str} {c : Char} {input : Str}
      (hinside : ∀ x ∈ inside, ¬ EndsComment x) (hc : EndsComment c) :
      Lexes ('#' :: (inside ++ c :: input)) ⟨.comment, '#' :: inside⟩ input
  | quoted {q : Char} {state : TokenParserState} {inside input : Str}
      (hq : Quote q state) (hinside : ∀ x ∈ inside, x ≠ q) :
      Lexes (q :: (inside ++ q :: input)) ⟨.normal, q :: inside ++ [q]⟩
        input
  | word {c : Char} {word : Str} {d : Char} {input : Str}
      (hc : StartsWord c) (hword : ∀ x ∈ word, ¬ EndsWord x)
      (hd : EndsWord d) :
      Lexes (c :: (word ++ d :: input)) ⟨.normal, c :: word⟩ (d :: input)
  | atEnd : Lexes [] ⟨.eof, []⟩ []
  | inComment {inside : Str} (hinside : ∀ x ∈ inside, ¬ EndsComment x) :
      Lexes ('#' :: inside) ⟨.eof, '#' :: inside⟩ []
  | inWord {c : Char} {word : Str} (hc : StartsWord c)
      (hword : ∀ x ∈ word, ¬ EndsWord x) :
      Lexes (c :: word) ⟨.eof, c :: word⟩ []
  | inQuotes {q : Char} {state : TokenParserState} {inside : Str}
      (hq : Quote q state) (hinside : ∀ x ∈ inside, x ≠ q) :
      Lexes (q :: inside) ⟨.error, q :: inside⟩ []

/-- What is said is what is done. -/
theorem Lexes.parseToken (h : Lexes input token rest) :
    parseToken input = (token, rest) := by
  unfold Creeper.parseToken
  induction h with
  | layout hc _ ih => rw [loop_layout hc, ih]
  | mark hc => exact loop_mark hc
  | comment hinside hc => exact readsUntil_comment.reach hinside hc
  | quoted hq hinside =>
      rw [loop_quote hq, (readsUntil_quote hq).reach hinside rfl]
      rfl
  | word hc hword hd =>
      rw [loop_word hc, readsUntil_word.reach hword hd]
      rfl
  | atEnd => rfl
  | inComment hinside => exact readsUntil_comment.run_out hinside
  | inWord hc hword =>
      rw [loop_word hc, readsUntil_word.run_out hword]
      rfl
  | inQuotes hq hinside =>
      rw [loop_quote hq, (readsUntil_quote hq).run_out hinside,
        loop_quote_nil hq]
      rfl

/-- Some of it is said of every input. -/
theorem exists_lexes (input : Str) : ∃ token rest, Lexes input token rest := by
  induction input with
  | nil => exact ⟨_, _, .atEnd⟩
  | cons c input ih =>
      rcases character_cases c with
        hc | ⟨type, hc⟩ | ⟨state, hq⟩ | rfl | hc
      · obtain ⟨token, rest, h⟩ := ih
        exact ⟨token, rest, .layout hc h⟩
      · exact ⟨_, _, .mark hc⟩
      · rcases first_split (· = c) input with
          hnone | ⟨inside, _, rest, rfl, hinside, rfl⟩
        · exact ⟨_, _, .inQuotes hq hnone⟩
        · exact ⟨_, _, .quoted hq hinside⟩
      · rcases first_split EndsComment input with
          hnone | ⟨inside, d, rest, rfl, hinside, hd⟩
        · exact ⟨_, _, .inComment hnone⟩
        · exact ⟨_, _, .comment hinside hd⟩
      · rcases first_split EndsWord input with
          hnone | ⟨word, d, rest, rfl, hword, hd⟩
        · exact ⟨_, _, .inWord hc hnone⟩
        · exact ⟨_, _, .word hc hword hd⟩

/-- What is done is what is said. -/
theorem parseToken_lexes (h : parseToken input = (token, rest)) :
    Lexes input token rest := by
  obtain ⟨token', rest', hlexes⟩ := exists_lexes input
  rw [hlexes.parseToken] at h
  cases h
  exact hlexes

-- ============================================================== all tokens

/-- The last token of a text. -/
theorem parseTokens_of_ends (h : Lexes input token rest)
    (hends : token.ends = true) : parseTokens input = [token] :=
  Scanner.scan_of_ends h.parseToken hends

/-- A token that is not the last. -/
theorem parseTokens_of_not_ends (h : Lexes input token rest)
    (hends : token.ends = false) :
    parseTokens input = token :: parseTokens rest :=
  Scanner.scan_of_not_ends h.parseToken hends

theorem parseTokens_nil : parseTokens [] = [⟨.eof, []⟩] :=
  parseTokens_of_ends .atEnd rfl

/-- Layout is skipped. -/
theorem parseTokens_layout (hc : IsLayout c) :
    parseTokens (c :: input) = parseTokens input :=
  Scanner.scan_congr (loop_layout hc)

theorem parseTokens_mark {type : TokenType} (hc : Mark c type) :
    parseTokens (c :: input) = ⟨type, [c]⟩ :: parseTokens input := by
  apply parseTokens_of_not_ends (.mark hc)
  cases hc <;> rfl

/-- Induction on a text, token by token. -/
theorem parseTokens_induction {P : Str → Prop}
    (hends : ∀ input token rest, Lexes input token rest →
      token.ends = true → P input)
    (hnext : ∀ input token rest, Lexes input token rest →
      token.ends = false → P rest → P input) (input : Str) : P input := by
  induction input using Scanner.scan_induction tokenScanner with
  | hends input token rest h he =>
      exact hends input token rest (parseToken_lexes h) he
  | hnext input token rest h he ih =>
      exact hnext input token rest (parseToken_lexes h) he ih

-- ================================================================= lexemes

/-- A string that is one token, quoted or a word. -/
inductive Lexeme : Str → Prop
  | quoted {q : Char} {state : TokenParserState} {inside : Str}
      (hq : Quote q state) (hinside : ∀ x ∈ inside, x ≠ q) :
      Lexeme (q :: inside ++ [q])
  | word {c : Char} {word : Str} (hc : StartsWord c)
      (hword : ∀ x ∈ word, ¬ EndsWord x) : Lexeme (c :: word)

/-- A lexeme is read where the end of a word follows. -/
theorem parseTokens_lexeme (hword : Lexeme word) (hd : EndsWord d) :
    parseTokens (word ++ d :: input)
      = ⟨.normal, word⟩ :: parseTokens (d :: input) := by
  cases hword with
  | quoted hq hinside =>
      rw [List.cons_append, List.cons_append, List.append_assoc]
      exact parseTokens_of_not_ends (.quoted hq hinside) rfl
  | word hc hword => exact parseTokens_of_not_ends (.word hc hword hd) rfl

/-- What the value of a token can be. -/
inductive Spelled : Token → Prop
  | word {word : Str} (hword : Lexeme word) : Spelled ⟨.normal, word⟩
  | mark {c : Char} {type : TokenType} (hc : Mark c type) :
      Spelled ⟨type, [c]⟩
  | comment (value : Str) : Spelled ⟨.comment, value⟩
  | eof (value : Str) : Spelled ⟨.eof, value⟩
  | error (value : Str) : Spelled ⟨.error, value⟩

theorem Lexes.spelled (h : Lexes input token rest) : Spelled token := by
  induction h with
  | layout _ _ ih => exact ih
  | mark hc => exact .mark hc
  | comment => exact .comment _
  | quoted hq hinside => exact .word (.quoted hq hinside)
  | word hc hword => exact .word (.word hc hword)
  | atEnd => exact .eof _
  | inComment => exact .eof _
  | inWord => exact .eof _
  | inQuotes => exact .error _

/-- The tokens of a text have the values they can have. -/
theorem spelled_of_mem {text : Str} (h : token ∈ parseTokens text) :
    Spelled token := by
  induction text using parseTokens_induction with
  | hends input token' rest hlexes hends =>
      rw [parseTokens_of_ends hlexes hends, List.mem_singleton] at h
      rw [h]
      exact hlexes.spelled
  | hnext input token' rest hlexes hends ih =>
      rw [parseTokens_of_not_ends hlexes hends] at h
      rcases List.mem_cons.mp h with rfl | h
      · exact hlexes.spelled
      · exact ih h

/-- The tokens end with the end of the file or an error, and have neither
before. -/
theorem parseTokens_eq (text : Str) :
    ∃ pre last, parseTokens text = pre ++ [last] ∧ last.ends = true
      ∧ ∀ token ∈ pre, token.ends = false :=
  tokenScanner.scan_eq text

end Creeper
