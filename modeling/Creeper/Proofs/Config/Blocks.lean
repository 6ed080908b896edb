/-
What the block stack of the config parser is for.

# Trees and tokens

`NginxConfig.lexemes` are the tokens of a tree in document order. That is
what the parser has read: `Emitted` says which tokens, comments aside,
lead to a stack of blocks, `parseStep_outcome` that every step keeps this
up, and `sound_foldl` what it means for where the parser ends: a text it
accepts has the tokens of the tree and nothing more. The converse is
`read_config`: the tokens of a tree put the tree on the top block.

# The stack

The parser takes a closing brace after a statement, also where no block
is open, and pops the block of the whole file. Nothing is wrong yet, but
a word or a brace then calls `top` or `pop` on the empty stack.
`stack_safe_iff` is exact: this happens in the texts that begin with a
nonempty config, a closing brace, and a word or another closing brace,
and in no others.
-/
import Mathlib.Data.List.Induction
import Creeper.Proofs.Config.Tokens

namespace Creeper

open Lib

-- ================================================================= tokens

/-- A word, as a token. -/
def Token.ofWord (word : Str) : Token := ⟨.normal, word⟩

/-- `{` -/
def Token.startBlock : Token := ⟨.startBlock, ['{']⟩

/-- `}` -/
def Token.endBlock : Token := ⟨.endBlock, ['}']⟩

/-- `;` -/
def Token.statementEnd : Token := ⟨.statementEnd, [';']⟩

/-- The tokens but for the comments. -/
def visible (tokens : List Token) : List Token :=
  tokens.filter fun token => token.type ≠ .comment

mutual

/-- The tokens of a statement. -/
def NginxConfigStatement.lexemes : NginxConfigStatement → List Token
  | .mk tokens none => tokens.map .ofWord ++ [.statementEnd]
  | .mk tokens (some block) =>
      tokens.map .ofWord ++ .startBlock :: NginxConfig.lexemes block
        ++ [.endBlock]

/-- The tokens of a config, in document order. -/
def NginxConfig.lexemes : List NginxConfigStatement → List Token
  | [] => []
  | statement :: statements =>
      statement.lexemes ++ NginxConfig.lexemes statements

end

mutual

/-- The statement begins with a word, and so do those in its block. -/
def NginxConfigStatement.WellFormed : NginxConfigStatement → Prop
  | .mk tokens none => tokens ≠ []
  | .mk tokens (some block) => tokens ≠ [] ∧ NginxConfig.WellFormed block

/-- Every statement begins with a word. -/
def NginxConfig.WellFormed : List NginxConfigStatement → Prop
  | [] => True
  | statement :: statements =>
      statement.WellFormed ∧ NginxConfig.WellFormed statements

end

/-- How many blocks are open after some tokens, `none` if one of them
closes a block where none is. -/
def openBlocks : Nat → List Token → Option Nat
  | n, [] => some n
  | n, token :: tokens =>
      if token.type = .startBlock then openBlocks (n + 1) tokens
      else if token.type ≠ .endBlock then openBlocks n tokens
      else
        match n with
        | 0 => none
        | n + 1 => openBlocks n tokens

section Trees

variable {config block done : NginxConfig} {statement : NginxConfigStatement}
  {words : List Str}

theorem lexemes_append (config config' : NginxConfig) :
    NginxConfig.lexemes (config ++ config')
      = NginxConfig.lexemes config ++ NginxConfig.lexemes config' := by
  induction config with
  | nil => rfl
  | cons statement config ih =>
      rw [List.cons_append, NginxConfig.lexemes, ih, NginxConfig.lexemes,
        List.append_assoc]

theorem wellFormed_append (config config' : NginxConfig) :
    NginxConfig.WellFormed (config ++ config')
      ↔ NginxConfig.WellFormed config ∧ NginxConfig.WellFormed config' := by
  induction config with
  | nil => simp [NginxConfig.WellFormed]
  | cons statement config ih =>
      rw [List.cons_append, NginxConfig.WellFormed, ih,
        NginxConfig.WellFormed, and_assoc]

/-- The tokens of a config that ends in a simple statement. -/
theorem lexemes_concat_none (done : NginxConfig) (words : List Str) :
    NginxConfig.lexemes (done ++ [.mk words none])
      = NginxConfig.lexemes done ++ words.map .ofWord
        ++ [.statementEnd] := by
  rw [lexemes_append, NginxConfig.lexemes, NginxConfig.lexemes,
    NginxConfigStatement.lexemes, List.append_nil, List.append_assoc]

/-- The tokens of a config that ends in a block. -/
theorem lexemes_concat_some (done : NginxConfig) (words : List Str)
    (block : NginxConfig) :
    NginxConfig.lexemes (done ++ [.mk words (some block)])
      = NginxConfig.lexemes done ++ words.map .ofWord ++ [.startBlock]
        ++ NginxConfig.lexemes block ++ [.endBlock] := by
  rw [lexemes_append, NginxConfig.lexemes, NginxConfig.lexemes,
    NginxConfigStatement.lexemes]
  simp only [List.append_nil, List.append_assoc, List.cons_append,
    List.nil_append]

theorem wellFormed_concat_none (hdone : NginxConfig.WellFormed done)
    (hwords : words ≠ []) :
    NginxConfig.WellFormed (done ++ [.mk words none]) :=
  (wellFormed_append _ _).mpr ⟨hdone, hwords, trivial⟩

theorem wellFormed_concat_some (hdone : NginxConfig.WellFormed done)
    (hwords : words ≠ []) (hblock : NginxConfig.WellFormed block) :
    NginxConfig.WellFormed (done ++ [.mk words (some block)]) :=
  (wellFormed_append _ _).mpr ⟨hdone, ⟨hwords, hblock⟩, trivial⟩

/-- Words open nothing. -/
theorem openBlocks_words (words : List Str) (n : Nat) (rest : List Token) :
    openBlocks n (words.map .ofWord ++ rest) = openBlocks n rest := by
  induction words with
  | nil => rfl
  | cons word words ih => exact ih

mutual

/-- A statement closes what it opens. -/
theorem openBlocks_statement : ∀ (statement : NginxConfigStatement)
    (n : Nat) (rest : List Token),
    openBlocks n (statement.lexemes ++ rest) = openBlocks n rest
  | .mk words none, n, rest => by
      rw [NginxConfigStatement.lexemes, List.append_assoc, openBlocks_words]
      rfl
  | .mk words (some block), n, rest => by
      rw [NginxConfigStatement.lexemes, List.append_assoc, List.append_assoc,
        openBlocks_words]
      exact openBlocks_config block (n + 1) (.endBlock :: rest)

/-- So does a config. -/
theorem openBlocks_config : ∀ (config : List NginxConfigStatement)
    (n : Nat) (rest : List Token),
    openBlocks n (NginxConfig.lexemes config ++ rest) = openBlocks n rest
  | [], n, rest => rfl
  | statement :: config, n, rest => by
      rw [NginxConfig.lexemes, List.append_assoc, openBlocks_statement,
        openBlocks_config]

end

end Trees

-- =============================================================== the stack

/-- The blocks that are waiting for an inner one to end, each with a
statement whose block that is, and the tokens read for them. -/
inductive Under : List NginxConfig → List Token → Prop
  | nil : Under [] []
  | cons {below : List NginxConfig} {read : List Token}
      {done : NginxConfig} {words : List Str} (h : Under below read)
      (hdone : NginxConfig.WellFormed done) (hwords : words ≠ []) :
      Under ((done ++ [.mk words none]) :: below)
        (read ++ (NginxConfig.lexemes done ++ words.map .ofWord
          ++ [.startBlock]))

/-- Between two statements, with the statements of the top block and the
last token. -/
inductive Between : List NginxConfig → NginxConfig → TokenType → Prop
  | start : Between [] [] .start
  | opened {below : List NginxConfig} (hbelow : below ≠ []) :
      Between below [] .startBlock
  | ended {below : List NginxConfig} {done : NginxConfig}
      {last : TokenType} (hdone : done ≠ [])
      (hlast : last = .statementEnd ∨ last = .endBlock) :
      Between below done last

/-- The stack and the last token after some tokens have been read. -/
inductive Emitted : List NginxConfig → TokenType → List Token → Prop
  | between {below : List NginxConfig} {read : List Token}
      {done : NginxConfig} {last : TokenType} (h : Under below read)
      (hdone : NginxConfig.WellFormed done)
      (hlast : Between below done last) :
      Emitted (done :: below) last (read ++ NginxConfig.lexemes done)
  | word {below : List NginxConfig} {read : List Token}
      {done : NginxConfig} {words : List Str} (h : Under below read)
      (hdone : NginxConfig.WellFormed done) (hwords : words ≠ []) :
      Emitted ((done ++ [.mk words none]) :: below) .normal
        (read ++ (NginxConfig.lexemes done ++ words.map .ofWord))
  | popped {config : NginxConfig} (hconfig : NginxConfig.WellFormed config)
      (hne : config ≠ []) :
      Emitted [] .endBlock (NginxConfig.lexemes config ++ [.endBlock])

-- ================================================================ one step

section Steps

variable {done block top : NginxConfig} {below stack : List NginxConfig}
  {last : TokenType} {words : List Str} {word value : Str}
  {read : List Token} {token : Token}

theorem changeBack_concat
    (change : NginxConfigStatement → NginxConfigStatement)
    (done : NginxConfig) (statement : NginxConfigStatement) :
    changeBack change (done ++ [statement])
      = some (done ++ [change statement]) := by
  unfold changeBack
  rw [List.getLast?_concat, List.dropLast_concat]
  rfl

/-- After these tokens a statement can begin. -/
def Begins (last : TokenType) : Prop :=
  last = .start ∨ last = .statementEnd ∨ last = .startBlock
    ∨ last = .endBlock

theorem Between.begins (h : Between below done last) : Begins last := by
  cases h with
  | start => exact Or.inl rfl
  | opened => exact Or.inr (Or.inr (Or.inl rfl))
  | ended _ hlast =>
      rcases hlast with rfl | rfl
      · exact Or.inr (Or.inl rfl)
      · exact Or.inr (Or.inr (Or.inr rfl))

/-- Inside a block, a closing brace can come next. -/
theorem Between.closed (h : Between below done last) (hbelow : below ≠ []) :
    last = .statementEnd ∨ last = .endBlock ∨ last = .startBlock := by
  cases h with
  | start => exact absurd rfl hbelow
  | opened => exact Or.inr (Or.inr rfl)
  | ended _ hlast => exact hlast.imp_right Or.inl

theorem Begins.not_normal (h : Begins last) : last ≠ .normal := by
  rcases h with rfl | rfl | rfl | rfl <;> simp

/-- A word that begins a statement. -/
theorem step_first_word (hlast : Begins last) (done : NginxConfig)
    (below : List NginxConfig) (word : Str) :
    parseStep (done :: below) last (.ofWord word)
      = .going ((done ++ [.mk [word] none]) :: below) .normal := by
  have hpush := changeBack_concat (.pushToken word) done (.mk [] none)
  have hallowed : last = .start ∨ last = .statementEnd ∨ last = .startBlock
      ∨ last = .endBlock ∨ last = .normal := by
    rcases hlast with rfl | rfl | rfl | rfl <;> simp
  unfold parseStep Token.ofWord emplaceStatement
  simp only
  rw [if_pos hallowed, if_pos hlast.not_normal, hpush]
  rfl

/-- A word that goes on with one. -/
theorem step_next_word (done : NginxConfig) (words : List Str)
    (below : List NginxConfig) (word : Str) :
    parseStep ((done ++ [.mk words none]) :: below) .normal (.ofWord word)
      = .going ((done ++ [.mk (words ++ [word]) none]) :: below)
        .normal := by
  have hpush := changeBack_concat (.pushToken word) done (.mk words none)
  unfold parseStep Token.ofWord
  simp only
  rw [if_pos (by simp), if_neg (by simp), hpush]
  rfl

/-- A block is opened after a word. -/
theorem step_startBlock (done : NginxConfig) (words : List Str)
    (below : List NginxConfig) :
    parseStep ((done ++ [.mk words none]) :: below) .normal .startBlock
      = .going ([] :: (done ++ [.mk words none]) :: below) .startBlock := by
  unfold parseStep Token.startBlock
  cases done <;> rfl

/-- A block is closed. -/
theorem step_endBlock (hlast : last = .statementEnd ∨ last = .endBlock
      ∨ last = .startBlock) :
    parseStep (block :: (done ++ [.mk words none]) :: below) last .endBlock
      = .going ((done ++ [.mk words (some block)]) :: below)
        .endBlock := by
  have hreset :=
    changeBack_concat (.resetChildBlock block) done (.mk words none)
  unfold parseStep Token.endBlock
  simp only
  rw [if_neg, hreset]
  · rfl
  · rcases hlast with rfl | rfl | rfl <;> simp

/-- Where a step can lead, with the tokens read before it. -/
inductive Outcome (read : List Token) (token : Token) : Parsing → Prop
  | going {stack : List NginxConfig} {last : TokenType}
      (h : Emitted stack last (read ++ [token])) :
      Outcome read token (.going stack last)
  | accepted {config : NginxConfig} (htype : token.type = .eof)
      (hconfig : NginxConfig.WellFormed config) (hne : config ≠ [])
      (hread : read = NginxConfig.lexemes config) :
      Outcome read token (.accepted config)
  | rejected : Outcome read token .rejected
  | undefined {config : NginxConfig}
      (htype : token.type = .normal ∨ token.type = .endBlock)
      (hconfig : NginxConfig.WellFormed config) (hne : config ≠ [])
      (hread : read = NginxConfig.lexemes config ++ [.endBlock]) :
      Outcome read token .undefined

/-- A closing brace between two statements. -/
theorem between_endBlock (h : Under below read)
    (hdone : NginxConfig.WellFormed done) (hlast : Between below done last) :
    Outcome (read ++ NginxConfig.lexemes done) .endBlock
      (parseStep (done :: below) last .endBlock) := by
  cases h with
  | nil =>
      cases hlast with
      | start => exact .rejected
      | opened hbelow => exact absurd rfl hbelow
      | ended hne hlast =>
          have hstep : parseStep [done] last .endBlock
              = .going [] .endBlock := by
            rcases hlast with rfl | rfl <;> rfl
          rw [hstep]
          exact .going (.popped hdone hne)
  | @cons below read outer words h houter hwords =>
      rw [step_endBlock (hlast.closed (List.cons_ne_nil _ _))]
      have hafter := Emitted.between h
        (wellFormed_concat_some houter hwords hdone)
        (.ended (by simp) (Or.inr rfl))
      rw [lexemes_concat_some] at hafter
      apply Outcome.going
      simpa only [List.append_assoc] using hafter

/-- The end of the file between two statements. -/
theorem between_eof (h : Under below read)
    (hdone : NginxConfig.WellFormed done) (hlast : Between below done last) :
    Outcome (read ++ NginxConfig.lexemes done) ⟨.eof, value⟩
      (parseStep (done :: below) last ⟨.eof, value⟩) := by
  cases hlast with
  | start => exact .rejected
  | opened => exact .rejected
  | ended hne hlast =>
      cases h with
      | nil =>
          have hstep : parseStep [done] last ⟨.eof, value⟩
              = .accepted done := by
            rcases hlast with rfl | rfl <;> rfl
          rw [hstep]
          exact .accepted rfl hdone hne (List.nil_append _)
      | cons =>
          rcases hlast with rfl | rfl <;> exact .rejected

/-- A token between two statements. -/
theorem between_outcome (h : Under below read)
    (hdone : NginxConfig.WellFormed done) (hlast : Between below done last)
    (hspelled : Spelled token) (hvisible : token.type ≠ .comment) :
    Outcome (read ++ NginxConfig.lexemes done) token
      (parseStep (done :: below) last token) := by
  have hnot := hlast.begins.not_normal
  cases hspelled with
  | @word word =>
      have hafter := Emitted.word h hdone (List.cons_ne_nil word [])
      rw [← List.append_assoc] at hafter
      have hstep := step_first_word hlast.begins done below word
      unfold Token.ofWord at hstep
      rw [hstep]
      exact .going hafter
  | mark hc =>
      cases hc with
      | startBlock =>
          have hstep : parseStep (done :: below) last ⟨.startBlock, ['{']⟩
              = .rejected := if_pos hnot
          rw [hstep]
          exact .rejected
      | endBlock => exact between_endBlock h hdone hlast
      | statementEnd =>
          have hstep : parseStep (done :: below) last ⟨.statementEnd, [';']⟩
              = .rejected := if_pos hnot
          rw [hstep]
          exact .rejected
  | comment => exact absurd rfl hvisible
  | eof value => exact between_eof h hdone hlast
  | error => exact .rejected

/-- A token after a word. -/
theorem word_outcome (h : Under below read)
    (hdone : NginxConfig.WellFormed done) (hwords : words ≠ [])
    (hspelled : Spelled token) (hvisible : token.type ≠ .comment) :
    Outcome (read ++ (NginxConfig.lexemes done ++ words.map .ofWord)) token
      (parseStep ((done ++ [.mk words none]) :: below) .normal token) := by
  cases hspelled with
  | @word word =>
      have hafter := Emitted.word h hdone
        (List.append_ne_nil_of_right_ne_nil words (List.cons_ne_nil word []))
      rw [List.map_append, ← List.append_assoc, ← List.append_assoc]
        at hafter
      have hstep := step_next_word done words below word
      unfold Token.ofWord at hstep
      rw [hstep, ← List.append_assoc]
      exact .going hafter
  | mark hc =>
      cases hc with
      | startBlock =>
          have hempty : NginxConfig.WellFormed [] := trivial
          have hafter := Emitted.between (.cons h hdone hwords) hempty
            (.opened (List.cons_ne_nil _ _))
          have hstep := step_startBlock done words below
          unfold Token.startBlock at hstep
          rw [hstep]
          apply Outcome.going
          rw [NginxConfig.lexemes, List.append_nil, ← List.append_assoc]
            at hafter
          exact hafter
      | endBlock => exact .rejected
      | statementEnd =>
          have hafter := Emitted.between h
            (wellFormed_concat_none hdone hwords)
            (.ended (by simp) (Or.inl rfl))
          rw [lexemes_concat_none, ← List.append_assoc] at hafter
          exact .going hafter
  | comment => exact absurd rfl hvisible
  | eof value => exact .rejected
  | error => exact .rejected

/-- A token after the block of the whole file was popped. -/
theorem popped_outcome {config : NginxConfig}
    (hconfig : NginxConfig.WellFormed config) (hne : config ≠ [])
    (hspelled : Spelled token) (hvisible : token.type ≠ .comment) :
    Outcome (NginxConfig.lexemes config ++ [.endBlock]) token
      (parseStep [] .endBlock token) := by
  cases hspelled with
  | word => exact .undefined (Or.inl rfl) hconfig hne rfl
  | mark hc =>
      cases hc with
      | startBlock => exact .rejected
      | endBlock => exact .undefined (Or.inr rfl) hconfig hne rfl
      | statementEnd => exact .rejected
  | comment => exact absurd rfl hvisible
  | eof => exact .rejected
  | error => exact .rejected

/-- What every step leads to. -/
theorem parseStep_outcome (h : Emitted stack last read)
    (hspelled : Spelled token) (hvisible : token.type ≠ .comment) :
    Outcome read token (parseStep stack last token) := by
  cases h with
  | between h hdone hlast =>
      exact between_outcome h hdone hlast hspelled hvisible
  | word h hdone hwords =>
      exact word_outcome h hdone hwords hspelled hvisible
  | popped hconfig hne => exact popped_outcome hconfig hne hspelled hvisible

end Steps

-- =============================================================== all tokens

section Runs

variable {tokens : List Token} {config : NginxConfig} {text : Str}

/-- Where `parse` begins. -/
def Parsing.begin : Parsing := .going [[]] .start

/-- What a list of tokens says about where `parse` is after it. -/
def Sound (tokens : List Token) : Parsing → Prop
  | .going stack last => Emitted stack last (visible tokens)
  | .accepted config => NginxConfig.WellFormed config
      ∧ ∃ pre token post, tokens = pre ++ token :: post
        ∧ token.type = .eof ∧ visible pre = NginxConfig.lexemes config
  | .rejected => True
  | .undefined => ∃ pre token post config, tokens = pre ++ token :: post
      ∧ (token.type = .normal ∨ token.type = .endBlock)
      ∧ NginxConfig.WellFormed config ∧ config ≠ []
      ∧ visible pre = NginxConfig.lexemes config ++ [.endBlock]

theorem visible_concat (tokens : List Token) {token : Token}
    (h : token.type ≠ .comment) :
    visible (tokens ++ [token]) = visible tokens ++ [token] := by
  unfold visible
  rw [List.filter_append, List.filter_singleton, decide_eq_true h]
  rfl

theorem visible_concat_comment (tokens : List Token) {token : Token}
    (h : token.type = .comment) :
    visible (tokens ++ [token]) = visible tokens := by
  unfold visible
  rw [List.filter_append, List.filter_singleton]
  simp [h]

theorem sound_begin : Sound [] .begin :=
  Emitted.between .nil trivial .start

/-- One more token. -/
theorem sound_step {parsing : Parsing} {token : Token}
    (h : Sound tokens parsing) (hspelled : Spelled token) :
    Sound (tokens ++ [token]) (parsing.advance token) := by
  cases parsing with
  | going stack last =>
      unfold Parsing.advance
      simp only
      by_cases hcomment : token.type = .comment
      · have hstep : parseStep stack last token = .going stack last := by
          unfold parseStep
          rw [hcomment]
        rw [hstep]
        unfold Sound at h ⊢
        simp only at h ⊢
        rw [visible_concat_comment tokens hcomment]
        exact h
      · have hout := parseStep_outcome h hspelled hcomment
        generalize parseStep stack last token = after at hout ⊢
        cases hout with
        | going hafter =>
            unfold Sound
            simp only
            rw [visible_concat tokens hcomment]
            exact hafter
        | accepted htype hconfig hne hread =>
            exact ⟨hconfig, tokens, token, [], rfl, htype, hread⟩
        | rejected => trivial
        | undefined htype hconfig hne hread =>
            exact ⟨tokens, token, [], _, rfl, htype, hconfig, hne, hread⟩
  | accepted config =>
      obtain ⟨hconfig, pre, eof, post, rfl, htype, hread⟩ := h
      exact ⟨hconfig, pre, eof, post ++ [token], by simp, htype, hread⟩
  | rejected => trivial
  | undefined =>
      obtain ⟨pre, bad, post, config, rfl, htype, hconfig, hne, hread⟩ := h
      exact ⟨pre, bad, post ++ [token], config, by simp, htype, hconfig, hne,
        hread⟩

/-- What a list of tokens says about where `parse` ends. -/
theorem sound_foldl (hspelled : ∀ token ∈ tokens, Spelled token) :
    Sound tokens (tokens.foldl Parsing.advance .begin) := by
  induction tokens using List.reverseRecOn with
  | nil => exact sound_begin
  | append_singleton tokens token ih =>
      rw [List.foldl_append]
      apply sound_step
      · exact ih fun t ht => hspelled t (List.mem_append_left _ ht)
      · exact hspelled token
          (List.mem_append_right _ (List.mem_singleton_self _))

/-- Where the parser ends on a text. -/
theorem sound_parse (text : Str) : Sound (parseTokens text) (parse text) :=
  sound_foldl fun _ => spelled_of_mem

/-- A text that is accepted has the tokens of the config, comments aside,
and then the end of the file. -/
theorem visible_of_accepted (h : parse text = .accepted config) :
    NginxConfig.WellFormed config ∧ ∃ pre value,
      parseTokens text = pre ++ [⟨.eof, value⟩]
        ∧ visible pre = NginxConfig.lexemes config := by
  have hsound := sound_parse text
  rw [h] at hsound
  obtain ⟨hconfig, pre, ⟨type, value⟩, post, htokens, rfl, hread⟩ := hsound
  obtain rfl := Scanner.scan_last htokens rfl
  exact ⟨hconfig, pre, value, htokens, hread⟩

/-- The words among the tokens are lexemes. -/
def Lexemes (tokens : List Token) : Prop :=
  ∀ word, Token.ofWord word ∈ tokens → Lexeme word

/-- The words of a text that was accepted are lexemes. -/
theorem lexemes_of_accepted {pre : List Token} {value : Str}
    (htokens : parseTokens text = pre ++ [⟨.eof, value⟩]) :
    Lexemes (visible pre) := by
  intro word hword
  have hmem : Token.ofWord word ∈ parseTokens text := by
    rw [htokens]
    exact List.mem_append_left _ (List.mem_filter.mp hword).1
  have hspelled := spelled_of_mem hmem
  generalize htoken : Token.ofWord word = token at hspelled
  cases hspelled with
  | word hlexeme =>
      cases htoken
      exact hlexeme
  | mark hc => cases hc <;> cases htoken
  | comment => cases htoken
  | eof => cases htoken
  | error => cases htoken

end Runs

-- ============================================================ the converse

section Reading

variable {done config : NginxConfig} {below : List NginxConfig}
  {last : TokenType} {words : List Str}

/-- The words of a statement, after the first. -/
theorem read_next_words (done : NginxConfig) (begun words : List Str)
    (below : List NginxConfig) :
    (words.map Token.ofWord).foldl Parsing.advance
        (.going ((done ++ [.mk begun none]) :: below) .normal)
      = .going ((done ++ [.mk (begun ++ words) none]) :: below)
        .normal := by
  induction words generalizing begun with
  | nil => rw [List.append_nil]; rfl
  | cons word words ih =>
      rw [List.map_cons, List.foldl_cons, Parsing.advance, step_next_word,
        ih, List.append_assoc]
      rfl

/-- The words of a statement. -/
theorem read_words (hlast : Begins last) (hwords : words ≠ [])
    (done : NginxConfig) (below : List NginxConfig) :
    (words.map Token.ofWord).foldl Parsing.advance
        (.going (done :: below) last)
      = .going ((done ++ [.mk words none]) :: below) .normal := by
  cases words with
  | nil => exact absurd rfl hwords
  | cons word words =>
      rw [List.map_cons, List.foldl_cons, Parsing.advance,
        step_first_word hlast, read_next_words]
      rfl

/-- What the last token is after a config, given what it was before. -/
def LastAfter (config : NginxConfig) (before after : TokenType) : Prop :=
  (config = [] ∧ after = before)
    ∨ (config ≠ [] ∧ (after = .statementEnd ∨ after = .endBlock))

mutual

/-- The tokens of a statement put it on the top block. -/
theorem read_statement : ∀ statement : NginxConfigStatement,
    statement.WellFormed → ∀ (done : NginxConfig)
      (below : List NginxConfig) (last : TokenType), Begins last →
    ∃ after, (after = .statementEnd ∨ after = .endBlock)
      ∧ statement.lexemes.foldl Parsing.advance (.going (done :: below) last)
        = .going ((done ++ [statement]) :: below) after
  | .mk words none, hwell, done, below, last, hlast => by
      refine ⟨.statementEnd, Or.inl rfl, ?_⟩
      rw [NginxConfigStatement.lexemes, List.foldl_append,
        read_words hlast hwell]
      rfl
  | .mk words (some block), hwell, done, below, last, hlast => by
      obtain ⟨hwords, hblock⟩ := hwell
      obtain ⟨after, hafter, hread⟩ := read_config block hblock []
        ((done ++ [.mk words none]) :: below) .startBlock
        (Or.inr (Or.inr (Or.inl rfl)))
      refine ⟨.endBlock, Or.inr rfl, ?_⟩
      have hclosed : after = .statementEnd ∨ after = .endBlock
          ∨ after = .startBlock := by
        rcases hafter with ⟨-, rfl⟩ | ⟨-, hafter⟩
        · exact Or.inr (Or.inr rfl)
        · exact hafter.imp_right Or.inl
      have hopened : (Token.startBlock :: NginxConfig.lexemes block).foldl
          Parsing.advance
          (.going ((done ++ [.mk words none]) :: below) .normal)
            = .going (block :: (done ++ [.mk words none]) :: below)
              after := by
        rw [List.foldl_cons, Parsing.advance, step_startBlock]
        exact hread
      rw [NginxConfigStatement.lexemes, List.foldl_append,
        List.foldl_append, read_words hlast hwords, hopened]
      exact step_endBlock hclosed

/-- The tokens of a config put it on the top block. -/
theorem read_config : ∀ config : List NginxConfigStatement,
    NginxConfig.WellFormed config → ∀ (done : NginxConfig)
      (below : List NginxConfig) (last : TokenType), Begins last →
    ∃ after, LastAfter config last after
      ∧ (NginxConfig.lexemes config).foldl Parsing.advance
          (.going (done :: below) last)
        = .going ((done ++ config) :: below) after
  | [], _, done, below, last, _ => by
      refine ⟨last, Or.inl ⟨rfl, rfl⟩, ?_⟩
      rw [List.append_nil]
      rfl
  | statement :: config, hwell, done, below, last, hlast => by
      obtain ⟨hstatement, hconfig⟩ := hwell
      obtain ⟨mid, hmid, hread⟩ :=
        read_statement statement hstatement done below last hlast
      have hbegins : Begins mid := by
        rcases hmid with rfl | rfl
        · exact Or.inr (Or.inl rfl)
        · exact Or.inr (Or.inr (Or.inr rfl))
      obtain ⟨after, hafter, hrest⟩ :=
        read_config config hconfig (done ++ [statement]) below mid hbegins
      refine ⟨after, Or.inr ⟨List.cons_ne_nil _ _, ?_⟩, ?_⟩
      · rcases hafter with ⟨-, rfl⟩ | ⟨-, hafter⟩
        · exact hmid
        · exact hafter
      · rw [NginxConfig.lexemes, List.foldl_append, hread, hrest,
          List.append_assoc]
        rfl

end

end Reading

-- ============================================================ stack safety

section Safety

variable {tokens : List Token} {config : NginxConfig} {token : Token}
  {text : Str} {parsing : Parsing}

/-- There is a closing brace where no block is open. -/
def StrayBrace (text : Str) : Prop :=
  openBlocks 0 (visible (parseTokens text)) = none

instance (text : Str) : Decidable (StrayBrace text) :=
  inferInstanceAs (Decidable (_ = none))

example : StrayBrace "a; b \x7d".toList := by decide +kernel

/-- After the stray brace comes a word or another brace, the config before
it having a statement. -/
def GoesOn (text : Str) : Prop :=
  ∃ config token, NginxConfig.WellFormed config ∧ config ≠ []
    ∧ (token.type = .normal ∨ token.type = .endBlock)
    ∧ NginxConfig.lexemes config ++ [.endBlock, token]
      <+: visible (parseTokens text)

/-- Comments do nothing. -/
theorem foldl_visible (tokens : List Token) (parsing : Parsing) :
    (visible tokens).foldl Parsing.advance parsing
      = tokens.foldl Parsing.advance parsing := by
  induction tokens generalizing parsing with
  | nil => rfl
  | cons token tokens ih =>
      unfold visible at ih ⊢
      rw [List.foldl_cons]
      by_cases hcomment : token.type = .comment
      · have hstay : parsing.advance token = parsing := by
          cases parsing with
          | going stack last =>
              unfold Parsing.advance parseStep
              simp only
              rw [hcomment]
          | _ => rfl
        rw [List.filter_cons_of_neg (by simp [hcomment]), ih, hstay]
      · rw [List.filter_cons_of_pos (by simp [hcomment]), List.foldl_cons,
          ih]

theorem parse_eq (text : Str) :
    parse text = (visible (parseTokens text)).foldl Parsing.advance
      .begin :=
  (foldl_visible _ _).symm

/-- What is over stays over. -/
theorem foldl_of_over (h : ∀ token, parsing.advance token = parsing)
    (tokens : List Token) :
    tokens.foldl Parsing.advance parsing = parsing := by
  induction tokens with
  | nil => rfl
  | cons token tokens ih => rw [List.foldl_cons, h, ih]

/-- The loop is not entered again after the end of the file or an error. -/
theorem not_ends_of_going {stack stack' : List NginxConfig}
    {last last' : TokenType}
    (h : parseStep stack last token = .going stack' last') :
    token.ends = false := by
  cases hends : token.ends with
  | false => rfl
  | true =>
      have htype : token.type = .eof ∨ token.type = .error := by
        unfold Token.ends at hends
        simpa using hends
      unfold parseStep at h
      rcases htype with htype | htype
      · rw [htype] at h
        simp only at h
        split at h
        · cases h
        · split at h <;> cases h
      · rw [htype] at h
        cases h

/-- `parse` always returns, if it makes no undefined call. -/
theorem parse_not_going (text : Str) (stack : List NginxConfig)
    (last : TokenType) : parse text ≠ .going stack last := by
  obtain ⟨pre, final, htokens, hends, -⟩ := parseTokens_eq text
  intro heq
  unfold parse at heq
  rw [htokens, List.foldl_append, List.foldl_cons, List.foldl_nil] at heq
  generalize pre.foldl Parsing.advance (.going [[]] .start) = before at heq
  cases before with
  | going stack' last' =>
      rw [Parsing.advance] at heq
      rw [not_ends_of_going heq] at hends
      cases hends
  | _ => cases heq

/-- A config and a closing brace leave the stack empty. -/
theorem read_popped (hconfig : NginxConfig.WellFormed config)
    (hne : config ≠ []) :
    (NginxConfig.lexemes config ++ [Token.endBlock]).foldl Parsing.advance
      .begin = .going [] .endBlock := by
  obtain ⟨after, hafter, hread⟩ :=
    read_config config hconfig [] [] .start (Or.inl rfl)
  unfold Parsing.begin
  rw [List.foldl_append, hread]
  rcases hafter with ⟨hnil, -⟩ | ⟨-, rfl | rfl⟩
  · exact absurd hnil hne
  · rfl
  · rfl

/-- A stray brace, and more, makes an undefined call. -/
theorem undefined_of_goesOn (h : GoesOn text) : parse text = .undefined := by
  obtain ⟨config, token, hconfig, hne, htype, rest, hrest⟩ := h
  have hcall : parseStep [] .endBlock token = .undefined := by
    unfold parseStep
    rcases htype with htype | htype <;> rw [htype] <;> rfl
  have hsplit : NginxConfig.lexemes config ++ [.endBlock, token] ++ rest
      = (NginxConfig.lexemes config ++ [.endBlock]) ++ token :: rest := by
    simp
  rw [parse_eq, ← hrest, hsplit, List.foldl_append,
    read_popped hconfig hne, List.foldl_cons, Parsing.advance, hcall]
  exact foldl_of_over (fun _ => rfl) rest

/-- An undefined call comes after a stray brace. -/
theorem goesOn_of_undefined (h : parse text = .undefined) : GoesOn text := by
  have hsound := sound_parse text
  rw [h] at hsound
  obtain ⟨pre, token, post, config, htokens, htype, hconfig, hne, hread⟩ :=
    hsound
  refine ⟨config, token, hconfig, hne, htype, visible post, ?_⟩
  have hvisible : token.type ≠ .comment := by
    rcases htype with htype | htype <;> rw [htype] <;> simp
  have hkept : visible (token :: post) = token :: visible post :=
    List.filter_cons_of_pos (by simp [hvisible])
  have happend : visible (pre ++ token :: post)
      = visible pre ++ visible (token :: post) := List.filter_append ..
  rw [htokens, happend, hread, hkept]
  simp

/-- In a text that is accepted every brace closes a block. -/
theorem not_stray_of_accepted (h : parse text = .accepted config) :
    ¬ StrayBrace text := by
  obtain ⟨-, pre, value, htokens, hread⟩ := visible_of_accepted h
  have hvisible : visible (parseTokens text)
      = NginxConfig.lexemes config ++ [⟨.eof, value⟩] := by
    rw [htokens, ← hread]
    exact List.filter_append ..
  intro hstray
  unfold StrayBrace at hstray
  rw [hvisible, openBlocks_config] at hstray
  cases hstray

/-- A stray brace is refused, if no call is undefined. -/
theorem rejected_of_stray (hstray : StrayBrace text)
    (hdefined : parse text ≠ .undefined) : parse text = .rejected := by
  cases hparse : parse text with
  | going stack last => exact absurd hparse (parse_not_going text _ _)
  | accepted config => exact absurd hstray (not_stray_of_accepted hparse)
  | rejected => rfl
  | undefined => exact absurd hparse hdefined

/-- Stack safety, exactly. For every text: `parse` makes no call on an
empty stack and refuses a text with a closing brace where no block is
open, if and only if the text does not go on after such a brace with a
word or another closing brace. -/
theorem stack_safe_iff (text : Str) :
    (parse text ≠ .undefined ∧ (StrayBrace text → parse text = .rejected))
      ↔ ¬ GoesOn text := by
  constructor
  · intro hsafe hgoes
    exact hsafe.1 (undefined_of_goesOn hgoes)
  · intro hnot
    have hdefined : parse text ≠ .undefined :=
      fun hundefined => hnot (goesOn_of_undefined hundefined)
    exact ⟨hdefined, fun hstray => rejected_of_stray hstray hdefined⟩

/-- Two closing braces after a statement. -/
theorem goesOn_two_braces : GoesOn "a;\x7d\x7d".toList := by
  have hconfig : NginxConfig.WellFormed [.mk ["a".toList] none] :=
    ⟨List.cons_ne_nil _ _, trivial⟩
  refine ⟨_, .endBlock, hconfig, List.cons_ne_nil _ _, Or.inr rfl, ?_⟩
  decide +kernel

/-- The second closing brace calls `pop` on an empty stack. -/
theorem stack_underflow :
    ¬ (parse "a;\x7d\x7d".toList ≠ .undefined
      ∧ (StrayBrace "a;\x7d\x7d".toList →
        parse "a;\x7d\x7d".toList = .rejected)) := by
  intro hsafe
  exact hsafe.1 (undefined_of_goesOn goesOn_two_braces)

end Safety

end Creeper
