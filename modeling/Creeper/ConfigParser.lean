/-
The config parser and printer (src/config_parser.cc).

# Tokens

`parse_token` is a loop over the characters of the stream with a state
and the value so far. It returns a type, the value and, in the model,
what is left of the stream; a character it puts back is left. At the end
of the stream it returns an error inside quotes and `EOF` anywhere else,
so a word, too, that the file ends in (`parseTokenLoop`).

# Statements

`parse` keeps a stack of blocks. A block on the stack is the vector of
its statements so far; the model hangs it on its statement when it is
popped, the source when it is pushed, and nothing is read through the
statement in between. `parse` calls `parse_token` until it gets `EOF` or
an error and does nothing else to the stream, so it is a fold over the
tokens of the text (`parseTokens`).

# Undefined behaviour

`top` and `pop` of an empty stack and `back` of an empty vector are not
defined. `Parsing.undefined` is where `parse` makes such a call.
-/
import Mathlib.Tactic.SplitIfs
import Creeper.Config
import Creeper.Lib.Scanner

namespace Creeper

open Lib

-- ================================================================ printing

/-- The two spaces for each level. -/
def indent (depth : Nat) : Str := List.replicate (2 * depth) ' '

mutual

/-- `NginxConfigStatement::to_string` -/
def NginxConfigStatement.toString (depth : Nat) :
    NginxConfigStatement → Str
  | .mk tokens none =>
      indent depth ++ List.intercalate [' '] tokens ++ ";\n".toList
  | .mk tokens (some childBlock) =>
      indent depth ++ List.intercalate [' '] tokens ++ " \x7b\n".toList
        ++ NginxConfig.toString (depth + 1) childBlock ++ indent depth
        ++ "\x7d\n".toList

/-- `NginxConfig::to_string` -/
def NginxConfig.toString (depth : Nat) : List NginxConfigStatement → Str
  | [] => []
  | statement :: statements =>
      statement.toString depth ++ NginxConfig.toString depth statements

end

-- ================================================================== tokens

/-- `TokenType` -/
inductive TokenType
  | start | normal | startBlock | endBlock | comment | statementEnd | eof
  | error
  deriving DecidableEq

/-- `TokenParserState` -/
inductive TokenParserState
  | initialWhitespace | singleQuote | doubleQuote | tokenTypeComment
  | tokenTypeNormal
  deriving DecidableEq

/-- What one call of `parse_token` gives: the type and the value. -/
structure Token where
  type : TokenType
  value : Str
  deriving DecidableEq

/-- The loop of `parse_token`. -/
def parseTokenLoop : TokenParserState → Str → Str → Token × Str
  | .singleQuote, value, [] => (⟨.error, value⟩, [])
  | .doubleQuote, value, [] => (⟨.error, value⟩, [])
  | _, value, [] => (⟨.eof, value⟩, [])
  | .initialWhitespace, value, c :: input =>
      if c = '{' then (⟨.startBlock, [c]⟩, input)
      else if c = '}' then (⟨.endBlock, [c]⟩, input)
      else if c = '#' then parseTokenLoop .tokenTypeComment [c] input
      else if c = '"' then parseTokenLoop .doubleQuote [c] input
      else if c = '\'' then parseTokenLoop .singleQuote [c] input
      else if c = ';' then (⟨.statementEnd, [c]⟩, input)
      else if c = ' ' ∨ c = '\t' ∨ c = '\n' ∨ c = '\r' then
        parseTokenLoop .initialWhitespace value input
      else parseTokenLoop .tokenTypeNormal (value ++ [c]) input
  | .singleQuote, value, c :: input =>
      if c = '\'' then (⟨.normal, value ++ [c]⟩, input)
      else parseTokenLoop .singleQuote (value ++ [c]) input
  | .doubleQuote, value, c :: input =>
      if c = '"' then (⟨.normal, value ++ [c]⟩, input)
      else parseTokenLoop .doubleQuote (value ++ [c]) input
  | .tokenTypeComment, value, c :: input =>
      if c = '\n' ∨ c = '\r' then (⟨.comment, value⟩, input)
      else parseTokenLoop .tokenTypeComment (value ++ [c]) input
  | .tokenTypeNormal, value, c :: input =>
      -- the source has '\t' twice here and no '\r'
      if c = ' ' ∨ c = '\t' ∨ c = '\n' ∨ c = ';' ∨ c = '{' ∨ c = '}' then
        (⟨.normal, value⟩, c :: input)
      else parseTokenLoop .tokenTypeNormal (value ++ [c]) input

/-- `parse_token` -/
def parseToken (input : Str) : Token × Str :=
  parseTokenLoop .initialWhitespace [] input

/-- After these, `parse` does not call `parse_token` again. -/
def Token.ends (token : Token) : Bool :=
  token.type = .eof || token.type = .error

/-- The loop leaves no more than it was given. -/
theorem length_parseTokenLoop (state : TokenParserState)
    (value input : Str) :
    (parseTokenLoop state value input).2.length ≤ input.length := by
  induction input generalizing state value with
  | nil => cases state <;> exact Nat.le_refl 0
  | cons c input ih =>
      have hlonger : ∀ state value,
          (parseTokenLoop state value input).2.length
            ≤ (c :: input).length :=
        fun state value => Nat.le_succ_of_le (ih state value)
      cases state <;> unfold parseTokenLoop <;> split_ifs <;>
        first | exact hlonger _ _ | exact Nat.le_succ _ | exact Nat.le_refl _

/-- A call of `parse_token` takes at least one character, unless it is
the last. -/
theorem length_parseToken (input : Str)
    (h : (parseToken input).1.ends = false) :
    (parseToken input).2.length < input.length := by
  unfold parseToken at h ⊢
  cases input with
  | nil => cases h
  | cons c input =>
      have hshorter : ∀ state value,
          (parseTokenLoop state value input).2.length
            < (c :: input).length :=
        fun state value =>
          Nat.lt_succ_of_le (length_parseTokenLoop state value input)
      unfold parseTokenLoop
      split_ifs <;> first | exact hshorter _ _ | exact Nat.lt_succ_self _

/-- `parse_token`, call after call. -/
def tokenScanner : Scanner Char Token where
  next := parseToken
  ends := Token.ends
  shorter := length_parseToken

/-- The tokens `parse` gets. -/
def parseTokens (text : Str) : List Token := tokenScanner.scan text

-- ================================================================= parsing

/-- `statements_.emplace_back(new NginxConfigStatement)` -/
def emplaceStatement (config : NginxConfig) : NginxConfig :=
  config ++ [.mk [] none]

/-- `statements_.back()` changed, if there is one. -/
def changeBack (change : NginxConfigStatement → NginxConfigStatement)
    (config : NginxConfig) : Option NginxConfig :=
  config.getLast?.map fun statement => config.dropLast ++ [change statement]

/-- `tokens_.push_back(token)` -/
def NginxConfigStatement.pushToken (token : Str) :
    NginxConfigStatement → NginxConfigStatement
  | .mk tokens childBlock => .mk (tokens ++ [token]) childBlock

/-- `child_block_.reset(block)` -/
def NginxConfigStatement.resetChildBlock (block : NginxConfig) :
    NginxConfigStatement → NginxConfigStatement
  | .mk tokens _ => .mk tokens (some block)

/-- Where `parse` is: in its loop with `config_stack` (the top first) and
`last_token_type`, returned true with the config or false, or past a call
that is not defined. -/
inductive Parsing
  | going (configStack : List NginxConfig) (lastTokenType : TokenType)
  | accepted (config : NginxConfig)
  | rejected
  | undefined

/-- The config of a parse that returned true. -/
def Parsing.result : Parsing → Option NginxConfig
  | .accepted config => some config
  | _ => none

theorem Parsing.result_eq_some_iff {parsing : Parsing}
    {config : NginxConfig} :
    parsing.result = some config ↔ parsing = .accepted config := by
  cases parsing <;> simp [result]

/-- The body of the loop of `parse`, for a token. -/
def parseStep (configStack : List NginxConfig) (lastTokenType : TokenType)
    (token : Token) : Parsing :=
  match token.type with
  | .error => .rejected
  | .comment => .going configStack lastTokenType
  | .normal =>
      if lastTokenType = .start ∨ lastTokenType = .statementEnd
          ∨ lastTokenType = .startBlock ∨ lastTokenType = .endBlock
          ∨ lastTokenType = .normal then
        match configStack with
        | [] => .undefined
        | top :: below =>
            let top := if lastTokenType ≠ .normal then emplaceStatement top
              else top
            match changeBack (.pushToken token.value) top with
            | none => .undefined
            | some top => .going (top :: below) .normal
      else .rejected
  | .statementEnd =>
      if lastTokenType ≠ .normal then .rejected
      else .going configStack .statementEnd
  | .startBlock =>
      if lastTokenType ≠ .normal then .rejected
      else
        match configStack with
        | [] => .undefined
        | [] :: _ => .undefined
        | top :: below => .going ([] :: top :: below) .startBlock
  | .endBlock =>
      if lastTokenType ≠ .statementEnd ∧ lastTokenType ≠ .endBlock
          ∧ lastTokenType ≠ .startBlock then .rejected
      else
        match configStack with
        | [] => .undefined
        | [_] => .going [] .endBlock
        | block :: top :: below =>
            match changeBack (.resetChildBlock block) top with
            | none => .undefined
            | some top => .going (top :: below) .endBlock
  | .eof =>
      if lastTokenType ≠ .statementEnd ∧ lastTokenType ≠ .endBlock then
        .rejected
      else
        match configStack with
        | [config] => .accepted config
        | _ => .rejected
  | .start => .rejected

/-- The loop, which nothing enters again once it is left. -/
def Parsing.advance : Parsing → Token → Parsing
  | .going configStack lastTokenType, token =>
      parseStep configStack lastTokenType token
  | parsing, _ => parsing

/-- `NginxConfigParser::parse`, into an empty config. -/
def parse (text : Str) : Parsing :=
  (parseTokens text).foldl Parsing.advance (.going [[]] .start)

end Creeper
