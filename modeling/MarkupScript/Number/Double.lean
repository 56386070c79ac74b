/-!
# Double precision numbers

The numbers of the language are IEEE 754 doubles. The program never computes with them: it reads
them from decimal text, writes them as decimal text and compares them, so a double is kept here as
what it is, a sign and a place on the scale of finite magnitudes.

The finite magnitudes are numbered in increasing order, zero first: `rank` counts the magnitudes
below. Every magnitude is a whole multiple of `2⁻¹⁰⁷⁴`, so its exact value is the natural number
`units` of such parts. `ofRatio` finds the magnitude nearest to a fraction.
-/

namespace MarkupScript

/-- How many finite magnitudes there are: 2047 binades of `2⁵²` each. -/
def Magnitude.count : Nat := 2047 * Nat.pow 2 52

/-- A finite non-negative double, by the number of finite magnitudes below it. -/
structure Magnitude where
  /-- How many magnitudes are smaller. -/
  rank : Nat
  /-- The scale ends at the largest finite double. -/
  rank_lt : rank < Magnitude.count
  deriving DecidableEq

/-- A double: a signed finite magnitude, a signed infinity, or no number. -/
inductive Double where
  /-- The result of reading `nan`. -/
  | nan
  /-- Larger than every finite number, or smaller. -/
  | infinite (negative : Bool)
  /-- A finite number. Zero has two signs. -/
  | finite (negative : Bool) (magnitude : Magnitude)
  deriving DecidableEq

namespace Magnitude

/-- The magnitude zero. -/
def zero : Magnitude := ⟨0, by decide⟩

/-- By how many binary places the significand stands above `2⁻¹⁰⁷⁴`. The two lowest binades share
the finest spacing. -/
def shift (x : Magnitude) : Nat := x.rank / Nat.pow 2 52 - 1

/-- The significand: the value is `significand · 2^shift` parts of `2⁻¹⁰⁷⁴`. -/
def significand (x : Magnitude) : Nat := x.rank - x.shift * Nat.pow 2 52

/-- The exact value, counted in parts of `2⁻¹⁰⁷⁴`. -/
def units (x : Magnitude) : Nat := x.significand * Nat.pow 2 x.shift

/-- The nearest whole number to `a / b`; of two equally near ones, the even one. -/
def roundHalfEven (a b : Nat) : Nat :=
  let q := a / b
  let r := a % b
  if 2 * r < b then q
  else if b < 2 * r then q + 1
  else if q % 2 = 0 then q else q + 1

/-- The place of the fraction `a / b` on the scale: the rank of the nearest magnitude, of two
equally near ones the one with even significand. Past the end of the scale there is no magnitude
with that rank. -/
def nearestRank (a b : Nat) : Nat :=
  let parts := a * Nat.pow 2 1074
  let shift := Nat.log2 (parts / b) - 52
  shift * Nat.pow 2 52 + roundHalfEven parts (b * Nat.pow 2 shift)

/-- The magnitude nearest to the fraction `a / b`, or nothing if that is infinite. -/
def ofRatio? (a b : Nat) : Option Magnitude :=
  if h : nearestRank a b < count then some ⟨nearestRank a b, h⟩ else none

end Magnitude

namespace Double

/-- The double with a given sign nearest to the fraction `a / b`. -/
def ofRatio (negative : Bool) (a b : Nat) : Double :=
  (Magnitude.ofRatio? a b).elim (infinite negative) (finite negative)

/-- The double nearest to a whole number. -/
def ofNat (n : Nat) : Double := ofRatio false n 1

/-- Whether a double is a finite number. -/
def isFinite : Double → Bool
  | finite _ _ => true
  | _ => false

end Double

end MarkupScript
