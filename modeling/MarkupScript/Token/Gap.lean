import MarkupScript.Text.Blank
import MarkupScript.Token.Place

/-!
# Gaps between tokens

Between two tokens stand blanks, line ends and comments. `skipGap` moves over all of them and notes
whether a line ended on the way. A line comment ends before its line does; inside a closed comment
only a line feed counts as a line end.
-/

namespace MarkupScript

/-- What part of a gap the reader is in. -/
inductive GapPart where
  /-- Blanks and line ends. -/
  | blanks
  /-- A comment that runs to the end of its line. -/
  | lineComment
  /-- A comment that has to be closed, and where it was opened. -/
  | closedComment (opened : Place)

/-- The reader behind a gap. -/
structure Cursor where
  place : Place
  /-- Whether a line ended in the gap. -/
  newline : Bool
  /-- What is left of the source. -/
  rest : List Char
  deriving DecidableEq

/-- Whether a character ends a line between tokens. -/
def isLineEnd (c : Char) : Bool := c == '\n' || c == '\r' || c == '\u2028' || c == '\u2029'

/-- Whether a character separates tokens and does nothing else. -/
def isSpace (c : Char) : Bool := Text.isBlank c || c == '\ufeff'

/-- Moves to the next character that is not part of the gap. -/
def skipGap (part : GapPart) (p : Place) (newline : Bool) (source : List Char) :
    Except ScanError Cursor :=
  match part, source with
  | .blanks, '\r' :: '\n' :: cs => skipGap .blanks (p.nextLine 2) true cs
  | .blanks, '/' :: '/' :: cs => skipGap .lineComment (p.right 2) newline cs
  | .blanks, '/' :: '*' :: cs => skipGap (.closedComment p) (p.right 2) newline cs
  | .blanks, c :: cs =>
    if isLineEnd c then skipGap .blanks (p.nextLine 1) true cs
    else if isSpace c then skipGap .blanks (p.right 1) newline cs
    else .ok ⟨p, newline, c :: cs⟩
  | .blanks, [] => .ok ⟨p, newline, []⟩
  | .lineComment, '\r' :: '\n' :: cs => skipGap .blanks (p.nextLine 2) true cs
  | .lineComment, c :: cs =>
    if c = '\n' ∨ c = '\r' then skipGap .blanks (p.nextLine 1) true cs
    else skipGap .lineComment (p.right 1) newline cs
  | .lineComment, [] => .ok ⟨p, newline, []⟩
  | .closedComment _, '*' :: '/' :: cs => skipGap .blanks (p.right 2) newline cs
  | .closedComment opened, c :: cs =>
    if c = '\n' then skipGap (.closedComment opened) (p.nextLine 1) true cs
    else skipGap (.closedComment opened) (p.right 1) newline cs
  | .closedComment opened, [] => .error ⟨.unterminatedComment, opened⟩
termination_by structural source

end MarkupScript
