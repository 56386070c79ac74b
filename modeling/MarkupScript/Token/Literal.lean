import MarkupScript.Number.Decimal
import MarkupScript.Token.Place

/-!
# Literals

How the text of a string or number literal is found and what it stands for.

The body of a string runs to the first quote of its kind that no backslash precedes, and never over
a line end unless a backslash precedes that. `StringLiteral.decode` replaces the escapes of a body
by what they denote. A number runs as far as digits, one point and one exponent go.
-/

namespace MarkupScript

namespace StringLiteral

/-- The body of a string literal, and what follows it: the closing quote, if there is one. -/
def splitBody (quote : Char) : List Char → List Char × List Char
  | [] => ([], [])
  | '\\' :: c :: cs => ('\\' :: c :: (splitBody quote cs).1, (splitBody quote cs).2)
  | c :: cs =>
    if c = quote ∨ c = '\n' ∨ c = '\r' then ([], c :: cs)
    else (c :: (splitBody quote cs).1, (splitBody quote cs).2)

/-- Whether a character is a digit in base sixteen. -/
def isHexDigit (c : Char) : Bool :=
  c.isDigit || 'a' ≤ c && c ≤ 'f' || 'A' ≤ c && c ≤ 'F'

/-- The value of a digit in base sixteen. -/
def hexDigitValue (c : Char) : Nat :=
  if c.isDigit then c.toNat - '0'.toNat
  else if 'a' ≤ c then c.toNat - 'a'.toNat + 10
  else c.toNat - 'A'.toNat + 10

/-- The character that digits in base sixteen name, if they name one. -/
def namedChar? (digits : List Char) : Option Char :=
  let n := digits.foldl (fun n d => 16 * n + hexDigitValue d) 0
  if digits ≠ [] ∧ n.isValidChar then some (Char.ofNat n) else none

/-- Reads what follows `\u`: at most four digits, or any number of them between braces. The answer
is the character and the number of characters read. -/
def decodeUnicode (p : Place) (cs : List Char) : Except ScanError (Char × Nat) :=
  match cs with
  | '{' :: cs =>
    let digits := cs.takeWhile isHexDigit
    if (cs.drop digits.length).head? = some '}' then named digits (digits.length + 2)
    else .error ⟨.unclosedEscape, p.right (digits.length + 1)⟩
  | cs =>
    let digits := (cs.take 4).takeWhile isHexDigit
    named digits digits.length
where
  /-- The character that the digits name; `size` characters were read. -/
  named (digits : List Char) (size : Nat) : Except ScanError (Char × Nat) :=
    match namedChar? digits with
    | some c => .ok (c, size)
    | none => .error ⟨.invalidEscape (String.ofList digits), p.right size⟩

/-- What a character denotes after a backslash: a control for some letters, itself otherwise. -/
def escaped : Char → Char
  | 'n' => '\n'
  | 't' => '\t'
  | 'r' => '\r'
  | 'b' => '\x08'
  | 'f' => '\x0c'
  | 'v' => '\x0b'
  | '0' => '\x00'
  | c => c

/-- The text that a body denotes, and the place behind it. A backslash before a line feed denotes
nothing, and the next line begins behind it. -/
def decode (p : Place) (body : List Char) : Except ScanError (List Char × Place) :=
  match body with
  | [] => .ok ([], p)
  | ['\\'] => .ok ([], p.right 1)
  | '\\' :: '\n' :: cs => decode ((p.right 1).nextLine 1) cs
  | '\\' :: 'u' :: cs => do
    let (c, size) ← decodeUnicode (p.right 2) cs
    let (text, stop) ← decode (p.right (2 + size)) (cs.drop size)
    return (c :: text, stop)
  | '\\' :: c :: cs => do
    let (text, stop) ← decode (p.right 2) cs
    return (escaped c :: text, stop)
  | c :: cs => do
    let (text, stop) ← decode (p.right 1) cs
    return (c :: text, stop)
termination_by body.length

end StringLiteral

namespace NumberLiteral

/-- The fraction that a numeral continues with: a point that no second point follows, and
digits. -/
def fraction : List Char → List Char
  | '.' :: cs => if cs.head? = some '.' then [] else '.' :: cs.takeWhile Char.isDigit
  | _ => []

/-- The exponent that a numeral continues with: its mark, a sign or none, and digits. -/
def exponent : List Char → List Char
  | c :: cs =>
    if c = 'e' ∨ c = 'E' then
      match cs with
      | s :: ds =>
        if s = '+' ∨ s = '-' then c :: s :: ds.takeWhile Char.isDigit
        else c :: (s :: ds).takeWhile Char.isDigit
      | [] => [c]
    else []
  | [] => []

/-- The text of the numeral at the beginning of a source. -/
def text (cs : List Char) : List Char :=
  let whole := cs.takeWhile Char.isDigit
  let cs := cs.drop whole.length
  let fraction := fraction cs
  whole ++ fraction ++ exponent (cs.drop fraction.length)

end NumberLiteral

end MarkupScript
