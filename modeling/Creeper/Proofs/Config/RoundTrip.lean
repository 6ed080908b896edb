/-
A config that was parsed is printed as a text that parses to it.

The printer and the parser meet in the tokens of the tree. The printed
text has exactly these (`parseTokens_toString`): the indentation is
skipped, and each token is followed by something that ends a word. And
where a text was accepted, they are the tokens of that text but for its
comments (`visible_of_accepted`). So `parse` is given the same tokens
again.
-/
import Creeper.Proofs.Config.Blocks

namespace Creeper

open Lib

variable {tokens : List Str} {d : Char} {rest text : Str}
  {config : NginxConfig}

/-- Indentation is skipped. -/
theorem parseTokens_indent (depth : Nat) (rest : Str) :
    parseTokens (indent depth ++ rest) = parseTokens rest := by
  unfold indent
  generalize 2 * depth = n
  induction n with
  | zero => rfl
  | succ n ih =>
      rw [List.replicate_succ, List.cons_append,
        parseTokens_layout (Or.inl rfl), ih]

/-- Tokens printed with spaces between them. -/
theorem parseTokens_intercalate (h : ∀ token ∈ tokens, Lexeme token)
    (hd : EndsWord d) :
    parseTokens (List.intercalate [' '] tokens ++ d :: rest)
      = tokens.map .ofWord ++ parseTokens (d :: rest) := by
  induction tokens with
  | nil => rfl
  | cons token tokens ih =>
      have htoken := h token (List.mem_cons_self ..)
      have hrest := ih fun t ht => h t (List.mem_cons_of_mem _ ht)
      cases tokens with
      | nil =>
          rw [List.intercalate_singleton, parseTokens_lexeme htoken hd]
          rfl
      | cons next tokens =>
          rw [List.intercalate_cons_cons, List.append_assoc,
            List.append_assoc, List.singleton_append,
            parseTokens_lexeme htoken (Or.inl rfl),
            parseTokens_layout (Or.inl rfl), hrest]
          rfl

/-- The words of a statement, its mark after them. -/
theorem lexeme_of_mem {tokens : List Str} (others : List Token)
    (h : Lexemes (tokens.map .ofWord ++ others)) :
    ∀ token ∈ tokens, Lexeme token :=
  fun token htoken => h token
    (List.mem_append_left _ (List.mem_map_of_mem htoken))

mutual

/-- A printed statement has the tokens of the statement. -/
theorem parseTokens_statement : ∀ (statement : NginxConfigStatement)
    (depth : Nat) (rest : Str), Lexemes statement.lexemes →
    parseTokens (statement.toString depth ++ rest)
      = statement.lexemes ++ parseTokens rest
  | .mk tokens none, depth, rest, hlexemes => by
      rw [NginxConfigStatement.lexemes] at hlexemes ⊢
      have htext : NginxConfigStatement.toString depth (.mk tokens none)
            ++ rest
          = indent depth ++ (List.intercalate [' '] tokens
            ++ ';' :: '\n' :: rest) := by
        rw [NginxConfigStatement.toString, List.append_assoc,
          List.append_assoc]
        rfl
      rw [htext, parseTokens_indent,
        parseTokens_intercalate (lexeme_of_mem _ hlexemes) (by decide),
        parseTokens_mark .statementEnd,
        parseTokens_layout (Or.inr (Or.inr (Or.inl rfl))),
        List.append_assoc]
      rfl
  | .mk tokens (some block), depth, rest, hlexemes => by
      rw [NginxConfigStatement.lexemes] at hlexemes ⊢
      have hwords := lexeme_of_mem
        (.startBlock :: NginxConfig.lexemes block ++ [.endBlock])
        (by simpa only [List.append_assoc] using hlexemes)
      have hblock : Lexemes (NginxConfig.lexemes block) := by
        intro word hword
        apply hlexemes word
        simp [hword]
      have htext : NginxConfigStatement.toString depth
            (.mk tokens (some block)) ++ rest
          = indent depth ++ (List.intercalate [' '] tokens
            ++ ' ' :: '{' :: '\n' :: (NginxConfig.toString (depth + 1) block
            ++ (indent depth ++ '}' :: '\n' :: rest))) := by
        rw [NginxConfigStatement.toString]
        simp only [List.append_assoc]
        rfl
      rw [htext, parseTokens_indent,
        parseTokens_intercalate hwords (by decide),
        parseTokens_layout (Or.inl rfl), parseTokens_mark .startBlock,
        parseTokens_layout (Or.inr (Or.inr (Or.inl rfl))),
        parseTokens_toString block _ _ hblock, parseTokens_indent,
        parseTokens_mark .endBlock,
        parseTokens_layout (Or.inr (Or.inr (Or.inl rfl)))]
      simp only [List.append_assoc, List.cons_append, List.nil_append]
      rfl

/-- A printed config has the tokens of the config. -/
theorem parseTokens_toString : ∀ (config : List NginxConfigStatement)
    (depth : Nat) (rest : Str), Lexemes (NginxConfig.lexemes config) →
    parseTokens (NginxConfig.toString depth config ++ rest)
      = NginxConfig.lexemes config ++ parseTokens rest
  | [], depth, rest, _ => rfl
  | statement :: config, depth, rest, hlexemes => by
      rw [NginxConfig.lexemes] at hlexemes ⊢
      rw [NginxConfig.toString, List.append_assoc,
        parseTokens_statement statement depth _
          fun word hword => hlexemes word (List.mem_append_left _ hword),
        parseTokens_toString config depth rest
          fun word hword => hlexemes word (List.mem_append_right _ hword),
        List.append_assoc]

end

/-- Printing and parsing round trip. For every text that is accepted,
printing the config gives a text that is accepted again, with the same
config: the same statements, tokens and blocks, at every depth. -/
theorem parse_toString (text : Str) (config : NginxConfig)
    (h : parse text = .accepted config) :
    parse (NginxConfig.toString 0 config) = .accepted config := by
  obtain ⟨-, pre, value, htokens, hread⟩ := visible_of_accepted h
  have hlexemes := lexemes_of_accepted htokens
  rw [hread] at hlexemes
  have hprinted := parseTokens_toString config 0 [] hlexemes
  rw [List.append_nil, parseTokens_nil] at hprinted
  -- both texts end with the end of the file, whatever its value
  have heof : ∀ parsing : Parsing, ∀ value,
      parsing.advance ⟨.eof, value⟩ = parsing.advance ⟨.eof, []⟩ := by
    intro parsing value
    cases parsing <;> rfl
  have horiginal : parse text = ((NginxConfig.lexemes config).foldl
      Parsing.advance .begin).advance ⟨.eof, []⟩ := by
    unfold parse
    rw [htokens, List.foldl_append, ← foldl_visible pre, hread,
      List.foldl_cons, List.foldl_nil, heof]
    rfl
  unfold parse
  rw [hprinted, List.foldl_append, List.foldl_cons, List.foldl_nil]
  exact horiginal.symm.trans h

/-- A text with blocks, quotes and comments. -/
def nestedText : Str :=
  "a 'x;\x7b' # y\n \x7b b#c \"d\"\r; e \x7b \x7d \x7d".toList

theorem parse_toString_nested :
    ∃ config, parse nestedText = .accepted config
      ∧ parse (NginxConfig.toString 0 config) = .accepted config := by
  have haccepted : (parse nestedText).result.isSome := by decide +kernel
  obtain ⟨config, hconfig⟩ := Option.isSome_iff_exists.mp haccepted
  have h := Parsing.result_eq_some_iff.mp hconfig
  exact ⟨config, h, parse_toString nestedText config h⟩

end Creeper
