import MarkupScript.Text.Shown

/-!
# String literals in a printed program

A printed string literal stands between double quotes. Quotes, backslashes, line terminators and
all other controls are escaped, so that a literal stays on its line and reads back as the same
text whatever it holds.
-/

namespace MarkupScript.Text

/-- Whether a character is a control (`Cc`). -/
def isControl (c : Char) : Bool := c.toNat < 0x20 || 0x7F ≤ c.toNat && c.toNat < 0xA0

/-- A code point as four digits in base sixteen. -/
def fourDigits (n : Nat) : List Char :=
  let ds := Nat.toDigits 16 n
  List.replicate (4 - ds.length) '0' ++ ds

/-- One character of a string literal. -/
def quoteChar (c : Char) : List Char :=
  match c with
  | '"' => ['\\', '"']
  | '\\' => ['\\', '\\']
  | '\n' => ['\\', 'n']
  | '\r' => ['\\', 'r']
  | '\t' => ['\\', 't']
  | '\x08' => ['\\', 'b']
  | '\x0b' => ['\\', 'v']
  | '\x0c' => ['\\', 'f']
  | '\u2028' => ['\\', 'u', '2', '0', '2', '8']
  | '\u2029' => ['\\', 'u', '2', '0', '2', '9']
  | c => if isControl c then '\\' :: 'u' :: fourDigits c.toNat else [c]

/-- A text as a string literal. -/
def quote (s : String) : String :=
  String.ofList ('"' :: s.toList.flatMap quoteChar ++ ['"'])

end MarkupScript.Text
