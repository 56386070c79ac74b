import MarkupScript.Number.Text
import MarkupScript.Text.Shown

/-!
# Tokens

The words and marks of the language. Most belong to the script: names, literals, keywords and
symbols. Four belong to the markup that may stand between statements: the marks that open and
close a tag, the names inside a tag, and the mark of a decorator.

A token carries the stretch of source it was read from and whether a line ended in front of it,
because a line end may stand for a semicolon.
-/

namespace MarkupScript

/-- A stretch of source: character offsets of its two ends, and line and column (from one) of its
start. -/
structure Span where
  start : Nat
  stop : Nat
  line : Nat
  column : Nat
  deriving DecidableEq, Repr, Inhabited

/-- The words that are not names. -/
inductive Keyword where
  | let_ | const_ | var_ | function_ | return_ | if_ | else_ | while_ | for_ | break_ | continue_
  | import_ | export_ | new_ | typeof_ | this_
  deriving DecidableEq, Repr

/-- The marks of the language. -/
inductive Symbol where
  | leftParen | rightParen | leftBracket | rightBracket | leftBrace | rightBrace
  | comma | semicolon | colon | dot | question | optionalChain | arrow
  | plus | minus | star | slash | percent | plusPlus | minusMinus
  | equal | notEqual | strictEqual | strictNotEqual
  | less | greater | lessEqual | greaterEqual
  | and | or | not | nullish
  | assign | plusAssign | minusAssign | starAssign | slashAssign
  | tagStart | tagEnd | decorator
  deriving DecidableEq, Repr

/-- What a token is. -/
inductive Kind where
  | identifier (name : String)
  | string (value : String)
  | number (value : Double)
  | boolean (value : Bool)
  | null
  | keyword (word : Keyword)
  | symbol (mark : Symbol)
  /-- The name of a tag or attribute. -/
  | name (text : String)
  | endOfInput
  deriving DecidableEq

/-- A token of a source. -/
structure Token where
  kind : Kind
  span : Span
  /-- Whether a line ends between the token before this one and this one. -/
  newlineBefore : Bool
  deriving DecidableEq

/-! ### Spelling -/

/-- The source text of a keyword. -/
def Keyword.spelling : Keyword → String
  | let_ => "let" | const_ => "const" | var_ => "var" | function_ => "function"
  | return_ => "return" | if_ => "if" | else_ => "else" | while_ => "while" | for_ => "for"
  | break_ => "break" | continue_ => "continue" | import_ => "import" | export_ => "export"
  | new_ => "new" | typeof_ => "typeof" | this_ => "this"

/-- The source text of a mark. -/
def Symbol.spelling : Symbol → String
  | leftParen => "(" | rightParen => ")" | leftBracket => "[" | rightBracket => "]"
  | leftBrace => "\x7b" | rightBrace => "\x7d"
  | comma => "," | semicolon => ";" | colon => ":" | dot => "." | question => "?"
  | optionalChain => "?." | arrow => "=>"
  | plus => "+" | minus => "-" | star => "*" | slash => "/" | percent => "%"
  | plusPlus => "++" | minusMinus => "--"
  | equal => "==" | notEqual => "!=" | strictEqual => "===" | strictNotEqual => "!=="
  | less => "<" | greater => ">" | lessEqual => "<=" | greaterEqual => ">="
  | and => "&&" | or => "||" | not => "!" | nullish => "??"
  | assign => "=" | plusAssign => "+=" | minusAssign => "-=" | starAssign => "*="
  | slashAssign => "/="
  | tagStart => "<" | tagEnd => ">" | decorator => "@"

/-- All keywords. -/
def Keyword.all : List Keyword :=
  [let_, const_, var_, function_, return_, if_, else_, while_, for_, break_, continue_,
    import_, export_, new_, typeof_, this_]

namespace Kind

/-- The token that a word of the script is. -/
def ofWord (word : String) : Kind :=
  match Keyword.all.find? (·.spelling = word) with
  | some k => keyword k
  | none =>
    if word = "true" then boolean true
    else if word = "false" then boolean false
    else if word = "null" then null
    else identifier word

/-- The word that a token is, if it is one. Where any word will do, such as after a dot, keywords
are words as well. -/
def word? : Kind → Option String
  | identifier x => some x
  | boolean true => some "true"
  | boolean false => some "false"
  | null => some "null"
  | keyword k => some k.spelling
  | _ => none

/-- What messages call a token. -/
def describe : Kind → String
  | identifier x => "identifier '" ++ x ++ "'"
  | string value => "string " ++ Text.shown value
  | number value => "number " ++ value.plain
  | boolean value => "'" ++ (if value then "true" else "false") ++ "'"
  | null => "'null'"
  | keyword k => "'" ++ k.spelling ++ "'"
  | symbol s => "'" ++ s.spelling ++ "'"
  | name text => "name '" ++ text ++ "'"
  | endOfInput => "end of input"

/-! ### Place in an expression -/

/-- Whether an expression can end with this token. A `<` after it on the same line compares. -/
def endsExpression : Kind → Bool
  | identifier _ | number _ | boolean _ | null | keyword .this_
  | symbol .rightParen | symbol .rightBracket | symbol .plusPlus | symbol .minusMinus => true
  | _ => false

/-- Whether an operand has to follow this token. A brace after it opens an object. -/
def expectsOperand : Kind → Bool
  | keyword .return_ | keyword .new_ | keyword .typeof_ => true
  | symbol s => match s with
    | .leftParen | .leftBracket | .comma | .colon | .question
    | .plus | .minus | .star | .slash | .percent
    | .equal | .notEqual | .strictEqual | .strictNotEqual
    | .less | .greater | .lessEqual | .greaterEqual
    | .and | .or | .not | .nullish
    | .assign | .plusAssign | .minusAssign | .starAssign | .slashAssign => true
    | _ => false
  | _ => false

end Kind

/-! ### Names inside a tag -/

/-- Whether a character can start the name of a tag or attribute. -/
def isNameStart (c : Char) : Bool := c.isAlpha || c == '[' || c == '(' || c == '$'

/-- Whether a character can continue the name of a tag or attribute. -/
def isNamePart (c : Char) : Bool := c.isAlphanum || c == ']' || c == ')'

end MarkupScript
