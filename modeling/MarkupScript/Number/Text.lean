import MarkupScript.Number.Shortest

/-!
# The text of a number

A double is written with its shortest digits. The three places that write one differ in when they
use a power of ten, in which of two equally near decimals they take and in how they write what is
not finite: messages and trees in exchange form
(`Double.plain`), the printed program (`Double.literal`) and a tree in file form (`Double.json?`).
-/

namespace MarkupScript

namespace Decimal

/-- The digits of the coefficient. -/
def digits (x : Decimal) : List Char := Nat.toDigits 10 x.coefficient

/-- How many digits stand before the decimal point; zero or less if the value is below one. -/
def point (x : Decimal) : Int := x.size + x.exponent

/-- The positional text: all digits of the whole part, and those of the fraction if there is
one. -/
def positional (x : Decimal) : String :=
  if 0 ≤ x.exponent then
    String.ofList (x.digits ++ List.replicate x.exponent.toNat '0')
  else if 0 < x.point then
    String.ofList (x.digits.take x.point.toNat ++ '.' :: x.digits.drop x.point.toNat)
  else
    String.ofList ('0' :: '.' :: List.replicate (-x.point).toNat '0' ++ x.digits)

/-- The text with one digit before the point and a signed power of ten. -/
def scientific (x : Decimal) : String :=
  let fraction := x.digits.drop 1
  let power := x.point - 1
  String.ofList (x.digits.take 1) ++ (if fraction = [] then "" else "." ++ String.ofList fraction) ++
    (if power < 0 then "e-" else "e+") ++ toString power.natAbs

end Decimal

/-- The sign in front of a number. -/
def signText (negative : Bool) : String := if negative then "-" else ""

namespace Double

/-- In positional text a tie between two shortest decimals goes to the larger one. -/
def positionalTie : Tie := .up

/-- In a JSON document a tie between two shortest decimals goes to the even digit. -/
def jsonTie : Tie := .even

/-- The text of a number in messages: always positional. -/
def plain : Double → String
  | nan => "NaN"
  | infinite negative => signText negative ++ "inf"
  | finite negative x => signText negative ++ (x.shortest positionalTie).positional

/-- The text of a number in a printed program: positional, with one zero, and the global names of
what is not finite. -/
def literal : Double → String
  | nan => "NaN"
  | infinite negative => signText negative ++ "Infinity"
  | finite negative x =>
    if x = .zero then "0" else signText negative ++ (x.shortest positionalTie).positional

/-- The text of a number in a JSON document, where only finite numbers have one. It is positional
from `10⁻⁵` up to `10¹⁶` and then always has a fraction. -/
def json? : Double → Option String
  | finite negative x =>
    let d := x.shortest jsonTie
    let text :=
      if -5 < d.point ∧ d.point ≤ 16 then
        if 0 ≤ d.exponent then d.positional ++ ".0" else d.positional
      else d.scientific
    some (signText negative ++ text)
  | _ => none

end Double

end MarkupScript
