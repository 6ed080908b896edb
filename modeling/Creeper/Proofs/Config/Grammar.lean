/-
The grammar of the config format.

    config = stmt+
    stmt = word+ ';' | word+ '{' stmt* '}'

`DerivesStatement` and `DerivesBlock` are its derivations, each with the
tree it builds. A tree is derived from its own tokens and from no others
(`derivesBlock_iff`), and the loop of `parse` accepts the tokens a config
is derived from, with that config, and no others (`parse_grammar`). A
config is derived from at most one sequence of tokens and a sequence
derives at most one config, because the loop has one result.

The tokens are those `parse_token` delivers; comments are dropped. Their
sequence is any: that it is one a text can have is not used.
-/
import Creeper.Proofs.Config.Blocks

namespace Creeper

open Lib

-- ============================================================= derivations

mutual

/-- A statement is words and a semicolon, or words and a block. -/
inductive DerivesStatement : List Token → NginxConfigStatement → Prop
  | simple {words : List Str} (hwords : words ≠ []) :
      DerivesStatement (words.map .ofWord ++ [.statementEnd])
        (.mk words none)
  | block {words : List Str} {inside : List Token}
      {statements : List NginxConfigStatement} (hwords : words ≠ [])
      (hinside : DerivesBlock inside statements) :
      DerivesStatement
        (words.map .ofWord ++ .startBlock :: inside ++ [.endBlock])
        (.mk words (some statements))

/-- Statements one after another. -/
inductive DerivesBlock : List Token → List NginxConfigStatement → Prop
  | nil : DerivesBlock [] []
  | cons {first rest : List Token} {statement : NginxConfigStatement}
      {statements : List NginxConfigStatement}
      (hfirst : DerivesStatement first statement)
      (hrest : DerivesBlock rest statements) :
      DerivesBlock (first ++ rest) (statement :: statements)

end

/-- A config is at least one statement. -/
def DerivesConfig (tokens : List Token) (config : NginxConfig) : Prop :=
  DerivesBlock tokens config ∧ config ≠ []

-- ========================================================= trees and tokens

mutual

/-- What a statement is derived from. -/
theorem derivesStatement_iff : ∀ (statement : NginxConfigStatement)
    (tokens : List Token), DerivesStatement tokens statement
      ↔ statement.WellFormed ∧ tokens = statement.lexemes
  | .mk words none, tokens => by
      constructor
      · intro h
        cases h with
        | simple hwords => exact ⟨hwords, rfl⟩
      · intro h
        obtain ⟨hwords, rfl⟩ := h
        exact .simple hwords
  | .mk words (some block), tokens => by
      constructor
      · intro h
        cases h with
        | block hwords hinside =>
            obtain ⟨hwell, rfl⟩ := (derivesBlock_iff block _).mp hinside
            exact ⟨⟨hwords, hwell⟩, rfl⟩
      · intro h
        obtain ⟨⟨hwords, hwell⟩, rfl⟩ := h
        have hinside := (derivesBlock_iff block _).mpr ⟨hwell, rfl⟩
        exact .block hwords hinside

/-- What a block is derived from. -/
theorem derivesBlock_iff : ∀ (block : List NginxConfigStatement)
    (tokens : List Token), DerivesBlock tokens block
      ↔ NginxConfig.WellFormed block
        ∧ tokens = NginxConfig.lexemes block
  | [], tokens => by
      constructor
      · intro h
        cases h
        exact ⟨trivial, rfl⟩
      · intro h
        obtain ⟨-, rfl⟩ := h
        exact .nil
  | statement :: statements, tokens => by
      constructor
      · intro h
        cases h with
        | cons hfirst hrest =>
            obtain ⟨hwell, rfl⟩ := (derivesStatement_iff statement _).mp hfirst
            obtain ⟨hwells, rfl⟩ := (derivesBlock_iff statements _).mp hrest
            exact ⟨⟨hwell, hwells⟩, rfl⟩
      · intro h
        obtain ⟨⟨hwell, hwells⟩, rfl⟩ := h
        have hfirst := (derivesStatement_iff statement _).mpr ⟨hwell, rfl⟩
        have hrest := (derivesBlock_iff statements _).mpr ⟨hwells, rfl⟩
        exact .cons hfirst hrest

end

-- ================================================================= the loop

/-- The loop of `parse` over the tokens it is delivered. -/
def parseDelivered (tokens : List Token) : Parsing :=
  tokens.foldl Parsing.advance .begin

/-- Tokens `parse_token` can deliver before the last. -/
def Delivered (tokens : List Token) : Prop :=
  ∀ token ∈ tokens, Spelled token ∧ token.ends = false

section

variable {tokens : List Token} {config : NginxConfig} {value : Str}

theorem parseDelivered_concat (tokens : List Token) (token : Token) :
    parseDelivered (tokens ++ [token])
      = (parseDelivered tokens).advance token := by
  unfold parseDelivered
  rw [List.foldl_append]
  rfl

/-- Without the end of the file there is nothing to accept. -/
theorem not_accepted (h : Delivered tokens) (config : NginxConfig) :
    parseDelivered tokens ≠ .accepted config := by
  intro haccepted
  have hsound := sound_foldl fun token hmem => (h token hmem).1
  unfold parseDelivered at haccepted
  rw [haccepted] at hsound
  obtain ⟨-, pre, token, post, rfl, htype, -⟩ := hsound
  have hends := (h token (by simp)).2
  unfold Token.ends at hends
  simp [htype] at hends

/-- What the stack holds of the tokens when the end of the file is
accepted. -/
theorem eof_accepted {stack : List NginxConfig} {last : TokenType}
    {read : List Token} (h : Emitted stack last read)
    (haccepted : parseStep stack last ⟨.eof, value⟩ = .accepted config) :
    NginxConfig.WellFormed config ∧ config ≠ []
      ∧ read = NginxConfig.lexemes config := by
  have hvisible : (⟨.eof, value⟩ : Token).type ≠ .comment := by simp
  have hout := parseStep_outcome h (.eof value) hvisible
  rw [haccepted] at hout
  cases hout with
  | accepted htype hconfig hne hread => exact ⟨hconfig, hne, hread⟩

/-- The tokens that are accepted are those the config is derived from. -/
theorem derives_of_accepted (h : Delivered tokens)
    (haccepted : parseDelivered (tokens ++ [⟨.eof, value⟩])
      = .accepted config) :
    DerivesConfig (visible tokens) config := by
  have hsound := sound_foldl fun token hmem => (h token hmem).1
  rw [parseDelivered_concat] at haccepted
  have hnot := not_accepted h config
  unfold parseDelivered at haccepted hnot
  cases hparsing : tokens.foldl Parsing.advance .begin with
  | going stack last =>
      rw [hparsing] at haccepted hsound
      have hstep : parseStep stack last ⟨.eof, value⟩ = .accepted config :=
        haccepted
      obtain ⟨hwell, hne, hread⟩ := eof_accepted hsound hstep
      exact ⟨(derivesBlock_iff config _).mpr ⟨hwell, hread⟩, hne⟩
  | accepted other =>
      rw [hparsing] at haccepted hnot
      exact absurd haccepted hnot
  | rejected =>
      rw [hparsing] at haccepted
      cases haccepted
  | undefined =>
      rw [hparsing] at haccepted
      cases haccepted

/-- The tokens a config is derived from are accepted. -/
theorem accepted_of_derives (h : DerivesConfig (visible tokens) config)
    (value : Str) :
    parseDelivered (tokens ++ [⟨.eof, value⟩]) = .accepted config := by
  obtain ⟨hblock, hne⟩ := h
  obtain ⟨hwell, htokens⟩ := (derivesBlock_iff config _).mp hblock
  obtain ⟨after, hafter, hread⟩ :=
    read_config config hwell [] [] .start (Or.inl rfl)
  have hstack : parseDelivered tokens = .going [config] after := by
    unfold parseDelivered Parsing.begin
    rw [← foldl_visible, htokens, hread, List.nil_append]
  rw [parseDelivered_concat, hstack]
  rcases hafter with ⟨hnil, -⟩ | ⟨-, rfl | rfl⟩
  · exact absurd hnil hne
  · rfl
  · rfl

/-- An error in the end is never accepted. -/
theorem error_not_accepted (h : Delivered tokens) (config : NginxConfig)
    (value : Str) :
    parseDelivered (tokens ++ [⟨.error, value⟩]) ≠ .accepted config := by
  intro haccepted
  have hnot := not_accepted h config
  rw [parseDelivered_concat] at haccepted
  cases hparsing : parseDelivered tokens with
  | accepted other =>
      rw [hparsing] at haccepted hnot
      exact hnot haccepted
  | _ =>
      rw [hparsing] at haccepted
      cases haccepted

/-- `parse` accepts the sequences of tokens the grammar derives a config
from, with that config, which is the only one; and none that ends in an
error. -/
theorem parse_grammar (h : Delivered tokens) (value : Str) :
    (∀ config, parseDelivered (tokens ++ [⟨.eof, value⟩]) = .accepted config
        ↔ DerivesConfig (visible tokens) config)
      ∧ (∀ config config', DerivesConfig (visible tokens) config →
          DerivesConfig (visible tokens) config' → config = config')
      ∧ ∀ config, parseDelivered (tokens ++ [⟨.error, value⟩])
          ≠ .accepted config := by
  refine ⟨fun config => ⟨?_, ?_⟩, ?_, ?_⟩
  · exact derives_of_accepted h
  · intro hderives
    exact accepted_of_derives hderives value
  · intro config config' hderives hderives'
    have haccepted := accepted_of_derives hderives value
    rw [accepted_of_derives hderives' value] at haccepted
    cases haccepted
    rfl
  · intro config
    exact error_not_accepted h config value

/-- A quoted word, a comment, and an empty block. -/
theorem parse_grammar_block :
    parseDelivered ([.ofWord ['"', '"'], ⟨.comment, ['#']⟩, .startBlock,
        .endBlock] ++ [⟨.eof, []⟩])
      = .accepted [.mk [['"', '"']] (some [])] := by
  have hdelivered : Delivered [.ofWord ['"', '"'], ⟨.comment, ['#']⟩,
      .startBlock, .endBlock] := by
    have hword : Lexeme (['"'] ++ ['"']) := .quoted .double (by simp)
    intro token hmem
    simp only [List.mem_cons, List.not_mem_nil, or_false] at hmem
    rcases hmem with rfl | rfl | rfl | rfl
    · exact ⟨.word hword, rfl⟩
    · exact ⟨.comment _, rfl⟩
    · exact ⟨.mark .startBlock, rfl⟩
    · exact ⟨.mark .endBlock, rfl⟩
  refine ((parse_grammar hdelivered []).1 _).mpr ⟨?_, List.cons_ne_nil _ _⟩
  have hwords : [['"', '"']] ≠ ([] : List Str) := List.cons_ne_nil _ _
  exact .cons (.block hwords .nil) .nil

/-- The same for texts. -/
theorem parse_accepted_iff (text : Str) (config : NginxConfig) :
    parse text = .accepted config
      ↔ ∃ tokens value, parseTokens text = tokens ++ [⟨.eof, value⟩]
        ∧ DerivesConfig (visible tokens) config := by
  obtain ⟨tokens, last, htokens, hends, hnot⟩ := parseTokens_eq text
  have hdelivered : Delivered tokens := by
    intro token hmem
    have hparsed : token ∈ parseTokens text := by
      rw [htokens]
      exact List.mem_append_left _ hmem
    exact ⟨spelled_of_mem hparsed, hnot token hmem⟩
  have hparse : parse text = parseDelivered (tokens ++ [last]) := by
    unfold parse parseDelivered Parsing.begin
    rw [htokens]
  rw [hparse, htokens]
  obtain ⟨type, value⟩ := last
  constructor
  · intro haccepted
    have htype : type = .eof ∨ type = .error := by
      unfold Token.ends at hends
      simpa using hends
    rcases htype with rfl | rfl
    · exact ⟨tokens, value, rfl, derives_of_accepted hdelivered haccepted⟩
    · exact absurd haccepted (error_not_accepted hdelivered config value)
  · intro hex
    obtain ⟨tokens', value', heq, hderives⟩ := hex
    obtain ⟨rfl, hlast⟩ := List.append_singleton_inj.mp heq
    cases hlast
    exact accepted_of_derives hderives value

end

end Creeper
