import MarkupScript.Text.Hidden

/-!
# Texts shown in messages

A message shows a text between double quotes, on one line and readable as it stands: quotes and
backslashes are escaped, the common controls have letters, and every other character that cannot
be shown is named by its code point.
-/

namespace MarkupScript.Text

/-- The digits of a code point in base sixteen, in lower case and without padding. -/
def hexadecimal (n : Nat) : String := String.ofList (Nat.toDigits 16 n)

/-- One character of a shown text. -/
def showChar (c : Char) : String :=
  match c with
  | '"' => "\\\""
  | '\\' => "\\\\"
  | '\n' => "\\n"
  | '\r' => "\\r"
  | '\t' => "\\t"
  | '\x00' => "\\0"
  | c => if isHidden c then "\\u\x7b" ++ hexadecimal c.toNat ++ "\x7d" else c.toString

/-- A text as messages show it. -/
def shown (s : String) : String :=
  "\"" ++ String.join (s.toList.map showChar) ++ "\""

end MarkupScript.Text
