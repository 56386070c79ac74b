/-!
# Places in a source

Where a reader stands in a source, and the errors of reading tokens, each with its place.
-/

namespace MarkupScript

/-- A place in a source: how many characters stand before it, and its line and column, both counted
from one. -/
structure Place where
  offset : Nat
  line : Nat
  column : Nat
  deriving DecidableEq, Repr

namespace Place

/-- The beginning of a source. -/
def start : Place := ⟨0, 1, 1⟩

/-- The place `n` characters further on the same line. -/
def right (n : Nat) (p : Place) : Place := ⟨p.offset + n, p.line, p.column + n⟩

/-- The beginning of the next line, behind a line end of `n` characters. -/
def nextLine (n : Nat) (p : Place) : Place := ⟨p.offset + n, p.line + 1, 1⟩

end Place

/-- Why a source has no tokens. -/
inductive ScanError.Cause where
  /-- A comment is not closed. -/
  | unterminatedComment
  /-- A string ends with its line or with the source. -/
  | unterminatedString
  /-- An escape opens a brace and does not close it after the digits. -/
  | unclosedEscape
  /-- The digits of an escape name no character. -/
  | invalidEscape (digits : String)
  /-- The exponent of a number has no digits. -/
  | invalidNumber (text : String)
  /-- A closing character does not close the innermost frame. -/
  | unbalanced (closer : Char)
  /-- No token starts with this character. -/
  | unexpected (found : Char)
  deriving DecidableEq

/-- A failure to read tokens, and where it was noticed. -/
structure ScanError where
  cause : ScanError.Cause
  place : Place
  deriving DecidableEq

namespace ScanError

/-- What a message says about a cause. -/
def Cause.message : Cause → String
  | unterminatedComment => "Unterminated comment"
  | unterminatedString => "Unterminated string"
  | unclosedEscape => "Invalid unicode escape"
  | invalidEscape digits => "Invalid unicode escape: '\\u" ++ digits ++ "'"
  | invalidNumber text => "Invalid number: '" ++ text ++ "'"
  | unbalanced closer => "Unbalanced '" ++ closer.toString ++ "'"
  | unexpected found => "Unexpected character: '" ++ found.toString ++ "'"

/-- The full message. -/
def message (e : ScanError) : String :=
  "Lexer error at line " ++ toString e.place.line ++ ", column " ++ toString e.place.column ++ ": " ++
    e.cause.message

end ScanError

end MarkupScript
