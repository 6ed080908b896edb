/-
Texts of the same tokens.

A text is laid out in pieces: words, quoted strings, punctuation, white
space, and comments to the end of the line (`LaidOut`). Two texts with
the same tokens parse alike if every unquoted word ends where the lexer
looks for its end, before a space, a tab, a line feed or punctuation
(`WordsEnded`). A carriage return is white space between tokens and ends
a comment, but it does not end a word, and nor does a quote or the end
of the file. `reads_iff` is exact: the lexer gives the tokens of a text
exactly if its words are ended. So the tokens of a config, in a text
where one is not, do not parse as that config (`same_parse_iff`).
-/
import Mathlib.Data.Bool.AllAny
import Creeper.Proofs.Config.Grammar

namespace Creeper

open Lib

-- ================================================================== pieces

/-- A token or a bit of layout. -/
inductive Piece
  | word (word : Str)
  | quoted (q : Char) (inside : Str)
  | mark (c : Char) (type : TokenType)
  | space (c : Char)
  | comment (inside ending : Str)

/-- What is written for a piece. -/
def Piece.text : Piece → Str
  | .word w => w
  | .quoted q inside => q :: inside ++ [q]
  | .mark c _ => [c]
  | .space c => [c]
  | .comment inside ending => '#' :: inside ++ ending

/-- The token a piece is, if it is one. -/
def Piece.token : Piece → Option Token
  | .word w => some (.ofWord w)
  | .quoted q inside => some (.ofWord (q :: inside ++ [q]))
  | .mark c type => some ⟨type, [c]⟩
  | .space _ => none
  | .comment _ _ => none

/-- A word has no white space and no punctuation in it, a quoted string
not its quote, and a comment no end of line but the one it ends in, which
the last line of a file may lack. -/
inductive Piece.Valid : Piece → Prop
  | word {c : Char} {word : Str} (hc : StartsWord c)
      (hword : ∀ x ∈ word, ¬ EndsWord x ∧ x ≠ '\r') :
      Valid (.word (c :: word))
  | quoted {q : Char} {state : TokenParserState} {inside : Str}
      (hq : Quote q state) (hinside : ∀ x ∈ inside, x ≠ q) :
      Valid (.quoted q inside)
  | mark {c : Char} {type : TokenType} (hc : Mark c type) :
      Valid (.mark c type)
  | space {c : Char} (hc : IsLayout c) : Valid (.space c)
  | comment {inside : Str} {c : Char}
      (hinside : ∀ x ∈ inside, ¬ EndsComment x) (hc : EndsComment c) :
      Valid (.comment inside [c])
  | lastComment {inside : Str}
      (hinside : ∀ x ∈ inside, ¬ EndsComment x) :
      Valid (.comment inside [])

/-- Neither a word nor a comment comes directly after a word, and nothing
after a comment without an end. -/
def Piece.MayPrecede : Piece → List Piece → Prop
  | .word _, .word _ :: _ => False
  | .word _, .comment _ _ :: _ => False
  | .comment _ [], _ :: _ => False
  | _, _ => True

/-- A text laid out in pieces. -/
def LaidOut : List Piece → Prop
  | [] => True
  | piece :: pieces => piece.Valid ∧ piece.MayPrecede pieces ∧ LaidOut pieces

/-- The text of pieces. -/
def textOf (pieces : List Piece) : Str := pieces.flatMap Piece.text

/-- The tokens of pieces. -/
def tokensOf (pieces : List Piece) : List Token :=
  pieces.filterMap Piece.token

/-- Every unquoted word is directly followed by a space, a tab, a line
feed or punctuation. -/
def WordsEnded : List Piece → Prop
  | [] => True
  | .word _ :: pieces =>
      (∃ d ∈ (textOf pieces).head?, EndsWord d) ∧ WordsEnded pieces
  | _ :: pieces => WordsEnded pieces

section

variable {pieces pieces' : List Piece} {config : NginxConfig}

theorem textOf_cons (piece : Piece) (pieces : List Piece) :
    textOf (piece :: pieces) = piece.text ++ textOf pieces :=
  List.flatMap_cons ..

theorem tokensOf_cons (piece : Piece) (pieces : List Piece) :
    tokensOf (piece :: pieces) = piece.token.toList ++ tokensOf pieces := by
  unfold tokensOf
  cases hpiece : piece.token with
  | none => rw [List.filterMap_cons_none hpiece]; rfl
  | some token => rw [List.filterMap_cons_some hpiece]; rfl

-- ================================================================ the lexer

/-- The lexer gives these tokens, comments aside, and the end of the
file. -/
def Reads (text : Str) (tokens : List Token) : Prop :=
  ∃ value, visible (parseTokens text) = tokens ++ [⟨.eof, value⟩]

theorem reads_nil_iff (tokens : List Token) : Reads [] tokens ↔ tokens = [] := by
  unfold Reads
  rw [parseTokens_nil]
  constructor
  · intro h
    obtain ⟨value, heq⟩ := h
    cases tokens with
    | nil => rfl
    | cons token tokens =>
        have hlength := congrArg List.length heq
        simp [visible] at hlength
  · intro h
    rw [h]
    exact ⟨[], rfl⟩

/-- A token in front. -/
theorem reads_cons_iff {text rest : Str} {token : Token}
    (htokens : parseTokens text = token :: parseTokens rest)
    (hvisible : token.type ≠ .comment) (tokens : List Token) :
    Reads text (token :: tokens) ↔ Reads rest tokens := by
  unfold Reads visible
  rw [htokens, List.filter_cons_of_pos (by simp [hvisible])]
  simp

/-- A comment in front. -/
theorem reads_comment_iff {text rest value : Str}
    (htokens : parseTokens text = ⟨.comment, value⟩ :: parseTokens rest)
    (tokens : List Token) : Reads text tokens ↔ Reads rest tokens := by
  unfold Reads visible
  rw [htokens, List.filter_cons_of_neg (by simp)]

/-- A word that is not ended reads on: it is not the token it was. -/
theorem not_reads_word {c : Char} {word rest : Str} (hc : StartsWord c)
    (hrest : ∀ d ∈ rest.head?, ¬ EndsWord d) (tokens : List Token) :
    ¬ Reads (c :: word ++ rest) (.ofWord (c :: word) :: tokens) := by
  intro hreads
  obtain ⟨value, heq⟩ := hreads
  rcases first_split EndsWord (word ++ rest) with
    hnone | ⟨inside, d, after, hsplit, hinside, hd⟩
  · rw [List.cons_append, parseTokens_of_ends (.inWord hc hnone) rfl] at heq
    have hlength := congrArg List.length heq
    simp [visible] at hlength
  · rw [List.cons_append, hsplit,
      parseTokens_of_not_ends (.word hc hinside hd) rfl] at heq
    unfold visible at heq
    rw [List.filter_cons_of_pos (by simp), List.cons_append] at heq
    have htoken := (List.cons.inj heq).1
    have hinside' : inside = word := by
      unfold Token.ofWord at htoken
      simpa using htoken
    rw [hinside'] at hsplit
    have hafter := List.append_cancel_left hsplit
    rw [hafter] at hrest
    exact hrest d rfl hd

/-- A word in front is the token it was just where it is ended. -/
theorem reads_word_iff {c : Char} {word rest : Str} (hc : StartsWord c)
    (hword : ∀ x ∈ word, ¬ EndsWord x) (tokens : List Token) :
    Reads (c :: word ++ rest) (.ofWord (c :: word) :: tokens)
      ↔ (∃ d ∈ rest.head?, EndsWord d) ∧ Reads rest tokens := by
  by_cases hended : ∃ d ∈ rest.head?, EndsWord d
  · obtain ⟨d, hd, hends⟩ := hended
    have hrest : rest = d :: rest.tail := List.eq_cons_of_mem_head? hd
    have htokens : parseTokens (c :: word ++ rest)
        = .ofWord (c :: word) :: parseTokens rest := by
      rw [hrest]
      exact parseTokens_lexeme (.word hc hword) hends
    rw [reads_cons_iff htokens (by simp [Token.ofWord])]
    exact (and_iff_right ⟨d, hd, hends⟩).symm
  · apply iff_of_false
    · apply not_reads_word hc
      intro d hd hends
      exact hended ⟨d, hd, hends⟩
    · exact fun h => hended h.1

/-- A quoted string in front is its token. -/
theorem reads_quoted_iff {q : Char} {state : TokenParserState}
    {inside rest : Str} (hq : Quote q state) (hinside : ∀ x ∈ inside, x ≠ q)
    (tokens : List Token) :
    Reads (q :: inside ++ [q] ++ rest) (.ofWord (q :: inside ++ [q]) :: tokens)
      ↔ Reads rest tokens := by
  have htokens : parseTokens (q :: inside ++ [q] ++ rest)
      = .ofWord (q :: inside ++ [q]) :: parseTokens rest := by
    rw [List.cons_append, List.cons_append, List.append_assoc]
    exact parseTokens_of_not_ends (.quoted hq hinside) rfl
  exact reads_cons_iff htokens (by simp [Token.ofWord]) tokens

/-- A comment with its end in front is not read. -/
theorem reads_commentLine_iff {c : Char} {inside rest : Str}
    (hinside : ∀ x ∈ inside, ¬ EndsComment x) (hc : EndsComment c)
    (tokens : List Token) :
    Reads ('#' :: inside ++ [c] ++ rest) tokens ↔ Reads rest tokens := by
  have htokens : parseTokens ('#' :: inside ++ [c] ++ rest)
      = ⟨.comment, '#' :: inside⟩ :: parseTokens rest := by
    rw [List.cons_append, List.cons_append, List.append_assoc]
    exact parseTokens_of_not_ends (.comment hinside hc) rfl
  exact reads_comment_iff htokens tokens

/-- The lexer gives the tokens of a text exactly if its words are
ended. -/
theorem reads_iff (h : LaidOut pieces) :
    Reads (textOf pieces) (tokensOf pieces) ↔ WordsEnded pieces := by
  induction pieces with
  | nil => simp [WordsEnded, textOf, tokensOf, reads_nil_iff]
  | cons piece pieces ih =>
      obtain ⟨hvalid, hprecede, hpieces⟩ := h
      have ih := ih hpieces
      rw [textOf_cons, tokensOf_cons]
      cases hvalid with
      | word hc hword =>
          have hnot := fun x hx => (hword x hx).1
          exact (reads_word_iff hc hnot _).trans (and_congr_right' ih)
      | quoted hq hinside => exact (reads_quoted_iff hq hinside _).trans ih
      | @mark c type hc =>
          have hvisible : type ≠ .comment := by cases hc <;> simp
          exact (reads_cons_iff (parseTokens_mark hc) hvisible _).trans ih
      | @space c hc =>
          show Reads (c :: textOf pieces) (tokensOf pieces) ↔ _
          unfold Reads at ih ⊢
          rw [parseTokens_layout hc]
          exact ih
      | comment hinside hc =>
          exact (reads_commentLine_iff hinside hc _).trans ih
      | @lastComment inside hinside =>
          cases pieces with
          | nil =>
              apply iff_of_true _ trivial
              refine ⟨'#' :: inside, ?_⟩
              show visible (parseTokens ('#' :: inside ++ [] ++ [])) = _
              rw [List.append_nil, List.append_nil,
                parseTokens_of_ends (.inComment hinside) rfl]
              rfl
          | cons next pieces => exact hprecede.elim

-- ================================================================= the twins

/-- Texts that read as the same tokens parse alike. -/
theorem Reads.parse_eq {text text' : Str} {tokens : List Token}
    (h : Reads text tokens) (h' : Reads text' tokens) :
    parse text = parse text' := by
  obtain ⟨value, hvalue⟩ := h
  obtain ⟨value', hvalue'⟩ := h'
  rw [Creeper.parse_eq, Creeper.parse_eq, hvalue, hvalue',
    List.foldl_append, List.foldl_append]
  cases tokens.foldl Parsing.advance .begin <;> rfl

/-- A text that parses as the config its tokens derive reads as those
tokens. -/
theorem reads_of_accepted {text : Str} {tokens : List Token}
    (hderives : DerivesConfig tokens config)
    (haccepted : parse text = .accepted config) : Reads text tokens := by
  obtain ⟨pre, value, htokens, hpre⟩ :=
    (parse_accepted_iff text config).mp haccepted
  have hsame : visible pre = tokens := by
    rw [((derivesBlock_iff config _).mp hpre.1).2,
      ((derivesBlock_iff config _).mp hderives.1).2]
  refine ⟨value, ?_⟩
  rw [htokens, visible_concat _ (by simp), hsame]

/-- A text that reads as the tokens of a config parses as the config. -/
theorem accepted_of_reads {text : Str} {tokens : List Token}
    (hderives : DerivesConfig tokens config) (hreads : Reads text tokens) :
    parse text = .accepted config := by
  obtain ⟨value, hvalue⟩ := hreads
  obtain ⟨pre, last, htokens, hends, -⟩ := parseTokens_eq text
  have hvisible : last.type ≠ .comment := by
    intro hcomment
    unfold Token.ends at hends
    simp [hcomment] at hends
  rw [htokens, visible_concat pre hvisible] at hvalue
  obtain ⟨hpre, hlast⟩ := List.append_singleton_inj.mp hvalue
  apply (parse_accepted_iff text config).mpr
  refine ⟨pre, value, ?_, ?_⟩
  · rw [htokens, hlast]
  · rw [hpre]
    exact hderives

/-- Two texts of the same tokens, the words of one ended. They parse
alike if the words of the other are ended, too, and, where the tokens are
those of a config, only then. -/
theorem same_parse_iff (h : LaidOut pieces) (h' : LaidOut pieces')
    (hsame : tokensOf pieces = tokensOf pieces')
    (hended' : WordsEnded pieces') :
    (WordsEnded pieces →
        parse (textOf pieces) = parse (textOf pieces'))
      ∧ ∀ config, DerivesConfig (tokensOf pieces) config →
        (parse (textOf pieces) = parse (textOf pieces')
          ↔ WordsEnded pieces) := by
  have hreads' := (reads_iff h').mpr hended'
  rw [← hsame] at hreads'
  have hsuffices : WordsEnded pieces →
      parse (textOf pieces) = parse (textOf pieces') :=
    fun hended => ((reads_iff h).mpr hended).parse_eq hreads'
  refine ⟨hsuffices, fun config hderives => ⟨?_, hsuffices⟩⟩
  intro hparse
  rw [accepted_of_reads hderives hreads'] at hparse
  exact (reads_iff h).mp (reads_of_accepted hderives hparse)

end

-- ================================================================ line ends

/-- A block with its braces on lines of their own, the lines ending in
`ending`. -/
def blockPieces (ending : Str) : List Piece :=
  .word "server".toList :: (ending.map .space ++ .mark '{' .startBlock
    :: (ending.map .space ++ [.mark '}' .endBlock]))

/-- White space in front. -/
theorem laidOut_spaces {spaces : Str} {pieces : List Piece}
    (hspaces : ∀ c ∈ spaces, IsLayout c) (h : LaidOut pieces) :
    LaidOut (spaces.map .space ++ pieces) := by
  induction spaces with
  | nil => exact h
  | cons c spaces ih =>
      refine ⟨.space (hspaces c (by simp)), trivial, ?_⟩
      exact ih fun d hd => hspaces d (by simp [hd])

theorem laidOut_block {ending : Str} (h : ∀ c ∈ ending, IsLayout c) :
    LaidOut (blockPieces ending) := by
  have hstart : StartsWord 's' := ⟨by decide, nofun, nofun, by decide⟩
  have hclosed : LaidOut (ending.map .space ++ [.mark '}' .endBlock]) :=
    laidOut_spaces h ⟨.mark .endBlock, trivial, trivial⟩
  refine ⟨.word hstart (List.all_iff_forall_prop.mp (by decide)), ?_, ?_⟩
  · cases ending <;> trivial
  · exact laidOut_spaces h ⟨.mark .startBlock, trivial, hclosed⟩

/-- A space, or a line feed and a tab. -/
theorem same_parse_block :
    parse (textOf (blockPieces [' ']))
      = parse (textOf (blockPieces ['\n', '\t'])) := by
  have hspace : LaidOut (blockPieces [' ']) :=
    laidOut_block (List.all_iff_forall_prop.mp (by decide))
  have htab : LaidOut (blockPieces ['\n', '\t']) :=
    laidOut_block (List.all_iff_forall_prop.mp (by decide))
  apply (same_parse_iff hspace htab rfl ?_).1
  · exact ⟨⟨' ', rfl, by decide⟩, trivial⟩
  · exact ⟨⟨'\n', rfl, by decide⟩, trivial⟩

/-- With CRLF line ends the carriage return goes to the word. -/
theorem crlf_twin_differs :
    LaidOut (blockPieces ['\n']) ∧ LaidOut (blockPieces ['\r', '\n'])
      ∧ tokensOf (blockPieces ['\n']) = tokensOf (blockPieces ['\r', '\n'])
      ∧ parse (textOf (blockPieces ['\n']))
        = .accepted [.mk ["server".toList] (some [])]
      ∧ parse (textOf (blockPieces ['\r', '\n']))
        = .accepted [.mk ["server\r".toList] (some [])]
      ∧ parse (textOf (blockPieces ['\n']))
        ≠ parse (textOf (blockPieces ['\r', '\n'])) := by
  have hparse : ∀ (text word : Str), parseTokens text
        = [.ofWord word, .startBlock, .endBlock] ++ [⟨.eof, []⟩] →
      parse text = .accepted [.mk [word] (some [])] := by
    intro text word htokens
    apply (parse_accepted_iff text _).mpr
    refine ⟨_, [], htokens, ?_, List.cons_ne_nil _ _⟩
    have hword : [word] ≠ [] := List.cons_ne_nil _ _
    exact .cons (.block hword .nil) .nil
  have hlf := hparse (textOf (blockPieces ['\n'])) "server".toList
    (by decide +kernel)
  have hcrlf := hparse (textOf (blockPieces ['\r', '\n']))
    "server\r".toList (by decide +kernel)
  refine ⟨laidOut_block (List.all_iff_forall_prop.mp (by decide)),
    laidOut_block (List.all_iff_forall_prop.mp (by decide)), rfl, hlf, hcrlf, ?_⟩
  rw [hlf, hcrlf]
  simp

end Creeper
