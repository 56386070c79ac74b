/-!
# Frames

The same mark means different things in different surroundings: `<` opens a tag between
statements and compares inside parentheses. A frame is an open delimiter together with what it
surrounds, and the stack of frames tells which reading applies.
-/

namespace MarkupScript

/-- What an open delimiter surrounds. -/
inductive Frame where
  /-- Statements, between braces or at the top of the source. -/
  | block
  /-- An object, or the expression of an attribute, between braces. -/
  | braces
  /-- Anything between parentheses. -/
  | parens
  /-- Anything between square brackets. -/
  | brackets
  /-- The inside of a tag that opens an element. -/
  | openTag
  /-- The inside of a tag that closes an element. -/
  | closeTag
  deriving DecidableEq, Repr

namespace Frame

/-- Whether a frame is the inside of a tag. -/
def isTag : Frame → Bool
  | openTag | closeTag => true
  | _ => false

/-- Whether a frame holds expressions only, where `<` always compares. -/
def isExpression : Frame → Bool
  | braces | parens | brackets => true
  | _ => false

/-- The character that closes a frame. -/
def closer : Frame → Char
  | block | braces => '}'
  | parens => ')'
  | brackets => ']'
  | openTag | closeTag => '>'

end Frame

/-- The open frames, innermost first. Around all of them lies the top of the source, a block that
nothing closes. -/
abbrev Frames := List Frame

namespace Frames

/-- The innermost frame. -/
def current (fs : Frames) : Frame := fs.head?.getD .block

/-- Closes the innermost frame, if that is what the character closes. -/
def pop? (c : Char) : Frames → Option (Frame × Frames)
  | f :: fs => if f.closer = c then some (f, fs) else none
  | [] => none

/-- After `</`, the tag just opened is one that closes an element; in any other surroundings
nothing changes. -/
def closeTag? : Frames → Option Frames
  | .openTag :: fs => some (.closeTag :: fs)
  | _ => none

end Frames

end MarkupScript
