/-
The loops of the config parser as they run on a stream
(src/config_parser.cc).

`parseToken` and `parse` are recursions over a text, so they cannot but
end. In the source `parse_token` is a `while` loop over a stream that
says whether it is still good, with a character put back after a word,
and `parse` is `while (true)` around it. Nothing in the loops themselves
bounds them, so here they are loops with fuel, turn by turn, and it is
for a proof to say how much is enough.

The body of the loop of `parse` after its call of `parse_token` is
`parseStep`. A comment is the step that leaves everything as it is, which
in the source is `continue`.
-/
import Creeper.ConfigParser
import Creeper.Lib.Loop

namespace Creeper

open Lib

-- ================================================================== stream

/-- A `std::istream` over a text that ends somewhere. -/
structure IStream where
  good : Bool
  /-- What has been read, the last character first. -/
  taken : Str
  unread : Str

/-- A stream nothing has been read of. -/
def IStream.ofText (text : Str) : IStream := ⟨true, [], text⟩

/-- `get()`, as the `char` it is assigned to; at the end of the text the
stream is no longer good. -/
def IStream.get (input : IStream) : Char × IStream :=
  if input.good then
    match input.unread with
    | [] => ('\xff', { input with good := false })
    | c :: unread => (c, ⟨true, c :: input.taken, unread⟩)
  else ('\xff', input)

/-- `unget()` -/
def IStream.unget (input : IStream) : IStream :=
  if input.good then
    match input.taken with
    | [] => { input with good := false }
    | c :: taken => ⟨true, taken, c :: input.unread⟩
  else input

-- ============================================================= parse_token

/-- What the loop of `parse_token` goes on with. -/
structure TokenLoop where
  input : IStream
  state : TokenParserState
  value : Str

/-- After the loop of `parse_token`. -/
def tokenEnded (state : TokenParserState) (value : Str) (input : IStream) :
    Turn TokenLoop (Token × IStream) :=
  if state = .singleQuote ∨ state = .doubleQuote then
    .leave (⟨.error, value⟩, input)
  else .leave (⟨.eof, value⟩, input)

/-- The `switch` of `parse_token`, on a character that was read. -/
def tokenSwitch (state : TokenParserState) (value : Str) (c : Char)
    (input : IStream) : Turn TokenLoop (Token × IStream) :=
  match state with
  | .initialWhitespace =>
      if c = '{' then .leave (⟨.startBlock, [c]⟩, input)
      else if c = '}' then .leave (⟨.endBlock, [c]⟩, input)
      else if c = '#' then .again ⟨input, .tokenTypeComment, [c]⟩
      else if c = '"' then .again ⟨input, .doubleQuote, [c]⟩
      else if c = '\'' then .again ⟨input, .singleQuote, [c]⟩
      else if c = ';' then .leave (⟨.statementEnd, [c]⟩, input)
      else if c = ' ' ∨ c = '\t' ∨ c = '\n' ∨ c = '\r' then
        .again ⟨input, .initialWhitespace, value⟩
      else .again ⟨input, .tokenTypeNormal, value ++ [c]⟩
  | .singleQuote =>
      if c = '\'' then .leave (⟨.normal, value ++ [c]⟩, input)
      else .again ⟨input, .singleQuote, value ++ [c]⟩
  | .doubleQuote =>
      if c = '"' then .leave (⟨.normal, value ++ [c]⟩, input)
      else .again ⟨input, .doubleQuote, value ++ [c]⟩
  | .tokenTypeComment =>
      if c = '\n' ∨ c = '\r' then .leave (⟨.comment, value⟩, input)
      else .again ⟨input, .tokenTypeComment, value ++ [c]⟩
  | .tokenTypeNormal =>
      if c = ' ' ∨ c = '\t' ∨ c = '\n' ∨ c = '\t' ∨ c = ';' ∨ c = '{'
          ∨ c = '}' then
        .leave (⟨.normal, value⟩, input.unget)
      else .again ⟨input, .tokenTypeNormal, value ++ [c]⟩

/-- A turn of the loop of `parse_token`. -/
def tokenTurn (before : TokenLoop) : Turn TokenLoop (Token × IStream) :=
  if before.input.good then
    let (c, input) := before.input.get
    if input.good then tokenSwitch before.state before.value c input
    else tokenEnded before.state before.value input
  else tokenEnded before.state before.value before.input

/-- `parse_token` on a stream, if its loop makes no more turns than there
is fuel: how many it makes, what it gives, and the stream after it. -/
def parseTokenOn (fuel : Nat) (input : IStream) :
    Option (Nat × Token × IStream) :=
  loop (fun before => some (tokenTurn before)) fuel
    ⟨input, .initialWhitespace, []⟩

-- =================================================================== parse

/-- What the loop of `parse` goes on with. -/
structure ParseLoop where
  input : IStream
  configStack : List NginxConfig
  lastTokenType : TokenType

/-- The body of the loop of `parse`, once `parse_token` has returned. -/
def parseBody (before : ParseLoop) (token : Token) (input : IStream) :
    Turn ParseLoop Parsing :=
  match parseStep before.configStack before.lastTokenType token with
  | .going configStack lastTokenType =>
      .again ⟨input, configStack, lastTokenType⟩
  | parsing => .leave parsing

/-- A turn of the loop of `parse`. -/
def parseTurn (fuel : Nat) (before : ParseLoop) :
    Option (Turn ParseLoop Parsing) :=
  (parseTokenOn fuel before.input).map fun (_, token, input) =>
    parseBody before token input

/-- `NginxConfigParser::parse` on a stream, if neither loop makes more
turns than there is fuel: how many the loop of `parse` makes, and what it
is left with. -/
def parseOn (fuel : Nat) (input : IStream) (config : NginxConfig) :
    Option (Nat × Parsing) :=
  loop (parseTurn fuel) fuel ⟨input, [config], .start⟩

end Creeper
