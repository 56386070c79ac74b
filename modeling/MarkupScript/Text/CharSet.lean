/-!
# Sets of characters

A set of characters given as a list of inclusive ranges of code points. The properties that the
language reads off a character (is it a letter, a digit, a blank, can it be shown) are such sets.
-/

namespace MarkupScript.Text

/-- A set of characters, as inclusive ranges of code points in increasing order. -/
structure CharSet where
  /-- First and last code point of each range. -/
  ranges : List (Nat × Nat)

/-- Whether a character lies in one of the ranges. -/
def CharSet.contains (s : CharSet) (c : Char) : Bool :=
  s.ranges.any fun r => r.1 ≤ c.toNat && c.toNat ≤ r.2

theorem CharSet.contains_iff {s : CharSet} {c : Char} :
    s.contains c = true ↔ ∃ r ∈ s.ranges, r.1 ≤ c.toNat ∧ c.toNat ≤ r.2 := by
  simp [CharSet.contains]

end MarkupScript.Text
