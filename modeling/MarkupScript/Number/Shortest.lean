import MarkupScript.Number.Decimal

/-!
# Shortest decimals

Every double has an exact decimal value, often a very long one. The text of a double needs only so
many digits that reading it gives the double back: `Magnitude.shortest` is the decimal with the
fewest digits that does, and of those the one nearest to the exact value. Two may be equally near;
which of them is taken is for the format to say (`Tie`).

Only two decimals of `n` digits come into question, the exact value cut off after `n` digits and
its upper neighbour: if any decimal of `n` digits reads back, one of these two does.
-/

namespace MarkupScript

/-- Which of two neighbours is taken when a value lies halfway between them. -/
inductive Tie where
  /-- The larger one. -/
  | up
  /-- The one with an even last digit. -/
  | even
  deriving DecidableEq

namespace Decimal

/-- How many digits the coefficient has. -/
def size (x : Decimal) : Nat := (Nat.toDigits 10 x.coefficient).length

/-- The decimal without its last `k` digits. -/
def cut (k : Nat) (x : Decimal) : Decimal := ⟨x.coefficient / Nat.pow 10 k, x.exponent + k⟩

/-- The next larger decimal with the same exponent. -/
def next (x : Decimal) : Decimal := { x with coefficient := x.coefficient + 1 }

/-- Whether the lower neighbour of a decimal among those with `k` digits fewer comes before the
upper one: it is nearer, or as near and the tie goes to it. -/
def isLowerFirst (tie : Tie) (k : Nat) (x : Decimal) : Bool :=
  match compare (2 * (x.coefficient % Nat.pow 10 k)) (Nat.pow 10 k) with
  | .lt => true
  | .eq => tie = .even ∧ (x.cut k).coefficient % 2 = 0
  | .gt => false

/-- The two neighbours of a decimal among those with `k` digits fewer, the nearer one first. -/
def neighbours (tie : Tie) (k : Nat) (x : Decimal) : List Decimal :=
  let below := x.cut k
  if x.isLowerFirst tie k then [below, below.next] else [below.next, below]

/-- The same value without zeros at the end of the coefficient. -/
def dropZeros (x : Decimal) : Decimal :=
  go x.size x
where
  /-- Drops at most `n` zeros. -/
  go : Nat → Decimal → Decimal
    | 0, x => x
    | n + 1, x =>
      if x.coefficient % 10 = 0 then go n ⟨x.coefficient / 10, x.exponent + 1⟩ else x

end Decimal

namespace Magnitude

/-- The exact value as a decimal. A part of `2⁻ⁿ` is `5ⁿ` parts of `10⁻ⁿ`. -/
def exact (x : Magnitude) : Decimal :=
  if 1074 ≤ x.shift then ⟨x.significand * Nat.pow 2 (x.shift - 1074), 0⟩
  else ⟨x.significand * Nat.pow 5 (1074 - x.shift), -((1074 - x.shift : Nat) : Int)⟩

/-- Whether reading a decimal gives this magnitude. -/
def isReadFrom (x : Magnitude) (d : Decimal) : Bool :=
  d.nearest false = .finite false x

/-- The decimal with the fewest digits that reads back, and of those the nearest to the exact
value, with ties as told. Seventeen digits always suffice, and zero needs one. -/
def shortest (tie : Tie) (x : Magnitude) : Decimal :=
  if x = .zero then ⟨0, 0⟩
  else
    let exact := x.exact
    let size := exact.size
    let found := (List.range 17).findSome? fun i =>
      (exact.neighbours tie (size - (i + 1))).find? x.isReadFrom
    (found.getD exact).dropZeros

end Magnitude

end MarkupScript
