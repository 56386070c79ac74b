import MarkupScript.Number.Double

/-!
# Decimal numerals

A decimal numeral is a whole coefficient with a power of ten. `Decimal.read?` takes the text of one
apart, `Decimal.nearest` finds the double nearest to its value, and `Double.read?` reads a whole
double, the words for infinity and for no number included.
-/

namespace MarkupScript

/-- The number `coefficient · 10^exponent`. -/
structure Decimal where
  coefficient : Nat
  exponent : Int
  deriving DecidableEq

/-- The value of a list of decimal digits. -/
def digitsValue (ds : List Char) : Nat :=
  ds.foldl (fun n d => 10 * n + (d.toNat - '0'.toNat)) 0

namespace Decimal

/-- The double nearest to a decimal, with a given sign.

A coefficient of `n` digits puts the value below `10^(n + exponent)` and not below a tenth of that,
so far from the scale of doubles the answer needs no powers of ten: all values from `10³¹⁰` on are
infinite, and all below `10⁻³³⁰` are zero. -/
def nearest (negative : Bool) (x : Decimal) : Double :=
  let point := ((Nat.toDigits 10 x.coefficient).length : Int) + x.exponent
  if x.coefficient = 0 ∨ point < -330 then .finite negative .zero
  else if 310 < point then .infinite negative
  else if 0 ≤ x.exponent then .ofRatio negative (x.coefficient * Nat.pow 10 x.exponent.toNat) 1
  else .ofRatio negative x.coefficient (Nat.pow 10 (-x.exponent).toNat)

/-- The exponent of a numeral after its mark `e`: a sign or none, and at least one digit. -/
def readExponent? : List Char → Option Int
  | '+' :: ds => digits? ds
  | '-' :: ds => (digits? ds).map (- ·)
  | ds => digits? ds
where
  /-- The value of a non-empty run of digits. -/
  digits? (ds : List Char) : Option Int :=
    if ds ≠ [] ∧ ds.all Char.isDigit then some (digitsValue ds) else none

/-- Reads an unsigned numeral: digits with at most one point among, before or after them, and an
exponent or none. At least one digit stands before the exponent. -/
def read? (cs : List Char) : Option Decimal :=
  let whole := cs.takeWhile Char.isDigit
  let (fraction, rest) :=
    match cs.dropWhile Char.isDigit with
    | '.' :: r => (r.takeWhile Char.isDigit, r.dropWhile Char.isDigit)
    | r => ([], r)
  if whole = [] ∧ fraction = [] then none
  else
    let mantissa (exponent : Int) : Decimal :=
      ⟨digitsValue (whole ++ fraction), exponent - fraction.length⟩
    match rest with
    | [] => some (mantissa 0)
    | c :: ds => if c = 'e' ∨ c = 'E' then (readExponent? ds).map mantissa else none

end Decimal

namespace Double

/-- Reads an unsigned double: a numeral, or a word in any letter case. -/
def readUnsigned? (negative : Bool) (cs : List Char) : Option Double :=
  let word := String.ofList (cs.map Char.toLower)
  if word = "inf" ∨ word = "infinity" then some (.infinite negative)
  else if word = "nan" then some .nan
  else (Decimal.read? cs).map (Decimal.nearest negative)

/-- Reads a double with a sign or none. -/
def read? (text : String) : Option Double :=
  match text.toList with
  | '-' :: cs => readUnsigned? true cs
  | '+' :: cs => readUnsigned? false cs
  | cs => readUnsigned? false cs

end Double

end MarkupScript
