import MarkupScript.Text.Alphabetic
import MarkupScript.Text.Numeric
import MarkupScript.Token.Basic
import MarkupScript.Token.Frame
import MarkupScript.Token.Gap
import MarkupScript.Token.Literal

/-!
# Reading tokens

`tokenize` reads a source from left to right: a gap, a token, a gap, a token, until the source
ends. What a character means depends on the innermost open frame and on the tokens before it.

* Inside a tag, runs of name characters are names, and `>` ends the tag.
* Between statements, `<` opens a tag unless it continues an expression on the same line.
* A brace opens an object where an operand is due, and a block of statements otherwise.
-/

namespace MarkupScript

/-- Whether a character can start an identifier. -/
def isIdentifierStart (c : Char) : Bool := Text.isAlphabetic c || c == '_' || c == '$'

/-- Whether a character can continue an identifier. -/
def isIdentifierPart (c : Char) : Bool :=
  Text.isAlphabetic c || Text.isNumeric c || c == '_' || c == '$'

/-- The operators and punctuation marks, longer spellings first. -/
def Symbol.operators : List Symbol :=
  [strictEqual, strictNotEqual,
    equal, arrow, notEqual, lessEqual, greaterEqual, and, or, nullish, optionalChain,
    plusPlus, plusAssign, minusMinus, minusAssign, starAssign, slashAssign,
    assign, not, less, greater, question, plus, minus, star, slash, percent,
    comma, semicolon, colon, dot]

/-- The longest operator that the source starts with. Before a digit, the point after a question
mark belongs to a number. -/
def Symbol.operator? (source : List Char) : Option Symbol :=
  operators.find? fun s =>
    s.spelling.toList.isPrefixOf source && !(s == optionalChain && (source[2]?).any Char.isDigit)

/-- The reader of a source. -/
structure Scanner where
  place : Place
  /-- What is left of the source. -/
  rest : List Char
  /-- Whether a line ended since the latest token. -/
  newline : Bool
  frames : Frames
  /-- Whether the latest closing brace closed an object. -/
  objectClosed : Bool
  /-- The tokens read so far, latest first. -/
  tokens : List Token

namespace Scanner

/-- The reader at the beginning of a source. -/
def start (source : List Char) : Scanner :=
  { place := .start, rest := source, newline := false, frames := [], objectClosed := false,
    tokens := [] }

/-- The kind of the latest token. -/
def latest? (s : Scanner) : Option Kind := s.tokens.head?.map (·.kind)

/-! ### Which reading applies -/

/-- Whether the source goes on with `</`, and not with a comment behind the `<`. -/
def closingTagAhead (s : Scanner) : Bool :=
  match s.rest with
  | '<' :: '/' :: cs => !(cs.head? == some '/' || cs.head? == some '*')
  | _ => false

/-- Whether a `<` at this place opens a tag. It does between statements, unless it goes on with an
expression on the same line. A number, boolean or null right behind a tag is text, so that a `<`
behind it opens a tag. -/
def opensTag (s : Scanner) : Bool :=
  s.frames.current == .block &&
    (s.newline || s.closingTagAhead ||
      match s.tokens with
      | [] => true
      | token :: before =>
        match token.kind with
        | .symbol .rightBrace => !s.objectClosed
        | .number _ | .boolean _ | .null => before.head?.any (·.kind == .symbol .tagEnd)
        | kind => !kind.endsExpression)

/-- Which frame a brace at this place opens. -/
def braceFrame (s : Scanner) : Frame :=
  match s.latest? with
  | none => .block
  | some kind =>
    if kind.expectsOperand then .braces
    else match kind with
      | .symbol .rightParen | .symbol .arrow | .keyword .else_ | .symbol .semicolon
      | .symbol .leftBrace | .symbol .rightBrace | .symbol .tagEnd => .block
      | _ => if s.frames.current.isExpression then .braces else .block

/-! ### One token -/

/-- The reader behind a token that ends at `stop`. -/
def emit (s : Scanner) (kind : Kind) (stop : Place) (rest : List Char) : Scanner :=
  { s with
    place := stop
    rest := rest
    newline := false
    tokens := ⟨kind, ⟨s.place.offset, stop.offset, s.place.line, s.place.column⟩, s.newline⟩ ::
      s.tokens }

/-- The reader behind a token of `n` characters on one line. -/
def take (s : Scanner) (kind : Kind) (n : Nat) : Scanner :=
  s.emit kind (s.place.right n) (s.rest.drop n)

/-- The reader with other frames. -/
def withFrames (s : Scanner) (frames : Frames) : Scanner := { s with frames := frames }

/-- Reads a string literal with the given quote. -/
def string (s : Scanner) (quote : Char) : Except ScanError Scanner := do
  let (body, rest) := StringLiteral.splitBody quote (s.rest.drop 1)
  let (text, stop) ← StringLiteral.decode (s.place.right 1) body
  match rest with
  | c :: cs =>
    if c = quote then return s.emit (.string (String.ofList text)) (stop.right 1) cs
    else .error ⟨.unterminatedString, s.place⟩
  | [] => .error ⟨.unterminatedString, s.place⟩

/-- Reads a number literal. -/
def number (s : Scanner) : Except ScanError Scanner :=
  let text := NumberLiteral.text s.rest
  match Decimal.read? text with
  | some d => .ok (s.take (.number (d.nearest false)) text.length)
  | none => .error ⟨.invalidNumber (String.ofList text), s.place.right text.length⟩

/-- Reads a word: an identifier or a keyword. -/
def word (s : Scanner) : Scanner :=
  let text := s.rest.takeWhile isIdentifierPart
  s.take (.ofWord (String.ofList text)) text.length

/-- Reads an opening delimiter. -/
def opening (s : Scanner) (mark : Symbol) (frame : Frame) : Scanner :=
  (s.take (.symbol mark) 1).withFrames (frame :: s.frames)

/-- Reads a closing delimiter, which has to close the innermost frame. -/
def closing (s : Scanner) (mark : Symbol) (c : Char) : Except ScanError Scanner :=
  match s.frames.pop? c with
  | none => .error ⟨.unbalanced c, s.place⟩
  | some (frame, frames) =>
    let s' := (s.take (.symbol mark) 1).withFrames frames
    .ok (if c = '}' then { s' with objectClosed := frame == .braces } else s')

/-- Reads an operator or punctuation mark. A slash right behind the start of a tag makes it a tag
that closes an element. -/
def operator (s : Scanner) (c : Char) : Except ScanError Scanner :=
  match Symbol.operator? s.rest with
  | none => .error ⟨.unexpected c, s.place⟩
  | some mark =>
    let s' := s.take (.symbol mark) mark.spelling.length
    .ok <|
      if mark = .slash ∧ s.latest? = some (.symbol .tagStart) then
        s'.withFrames (s.frames.closeTag?.getD s.frames)
      else s'

/-- Reads a token of the script that starts with the character `c`. -/
def script (s : Scanner) (c : Char) : Except ScanError Scanner :=
  if c = '"' ∨ c = '\'' then s.string c
  else if c.isDigit || c == '.' && (s.rest[1]?).any Char.isDigit then s.number
  else if isIdentifierStart c then .ok s.word
  else match c with
    | '(' => .ok (s.opening .leftParen .parens)
    | '[' => .ok (s.opening .leftBracket .brackets)
    | '{' => .ok (s.opening .leftBrace s.braceFrame)
    | ')' => s.closing .rightParen c
    | ']' => s.closing .rightBracket c
    | '}' => s.closing .rightBrace c
    | _ => s.operator c

/-- Reads the token that starts with the next character. -/
def token (s : Scanner) : Except ScanError Scanner :=
  match s.rest with
  | [] => .ok s
  | c :: cs =>
    if s.frames.current.isTag then
      if isNameStart c then
        let text := c :: cs.takeWhile isNamePart
        .ok (s.take (.name (String.ofList text)) text.length)
      else if c = '>' then
        .ok ((s.take (.symbol .tagEnd) 1).withFrames (s.frames.drop 1))
      else s.script c
    else if c = '<' ∧ s.opensTag then .ok (s.opening .tagStart .openTag)
    else if c = '@' then .ok (s.take (.symbol .decorator) 1)
    else s.script c

/-! ### All tokens -/

/-- Moves over a gap. -/
def gap (s : Scanner) : Except ScanError Scanner := do
  let cursor ← skipGap .blanks s.place s.newline s.rest
  return { s with place := cursor.place, rest := cursor.rest, newline := cursor.newline }

/-- Reads at most `n` tokens, with the gaps around them. Every token has at least one character, so
that for a source of `n` characters this is the whole source. -/
def run : Nat → Scanner → Except ScanError Scanner
  | 0, s => .ok s
  | n + 1, s => do
    let s ← s.gap
    if s.rest.isEmpty then return s
    let s ← s.token
    run n s

end Scanner

/-- The tokens of a source. The last one stands for the end of the source. -/
def tokenize (source : String) : Except ScanError (List Token) := do
  let cs := source.toList
  let s ← Scanner.run (cs.length + 1) (.start cs)
  return (s.take .endOfInput 0).tokens.reverse

end MarkupScript
