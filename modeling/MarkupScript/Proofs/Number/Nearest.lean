import MarkupScript.Number.Text
import Mathlib.Algebra.Group.Nat.Defs

/-!
# Reading back the text of a number

The shortest decimal of a magnitude reads back as that magnitude. Either it was chosen because it
does, or it is the exact value, and the magnitude nearest to its own value is itself. That the nearest
magnitude depends on the value of a decimal alone, not on how it is written, lets zeros be moved
between the coefficient and the exponent.
-/

namespace MarkupScript

namespace Magnitude

/-! ### Fractions with a common factor -/

theorem roundHalfEven_mul (a b : Nat) {t : Nat} (ht : 0 < t) :
    roundHalfEven (a * t) (b * t) = roundHalfEven a b := by
  have hless : 2 * (a % b * t) < b * t ↔ 2 * (a % b) < b := by
    rw [← Nat.mul_assoc, Nat.mul_lt_mul_right ht]
  have hmore : b * t < 2 * (a % b * t) ↔ b < 2 * (a % b) := by
    rw [← Nat.mul_assoc, Nat.mul_lt_mul_right ht]
  simp only [roundHalfEven, Nat.mul_div_mul_right _ _ ht, Nat.mul_mod_mul_right, hless, hmore]

theorem nearestRank_mul (a b : Nat) {t : Nat} (ht : 0 < t) :
    nearestRank (a * t) (b * t) = nearestRank a b := by
  simp only [nearestRank, Nat.mul_right_comm _ t, Nat.mul_div_mul_right _ _ ht,
    roundHalfEven_mul _ _ ht]

theorem ofRatio?_mul (a b : Nat) {t : Nat} (ht : 0 < t) :
    ofRatio? (a * t) (b * t) = ofRatio? a b := by
  simp only [ofRatio?, nearestRank_mul a b ht]

end Magnitude

theorem Double.ofRatio_mul (negative : Bool) (a b : Nat) {t : Nat} (ht : 0 < t) :
    ofRatio negative (a * t) (b * t) = ofRatio negative a b := by
  rw [ofRatio, ofRatio, Magnitude.ofRatio?_mul a b ht]

/-! ### Zeros at the end of a coefficient -/

namespace Decimal

theorem size_mul_pow {c : Nat} (hc : c ≠ 0) (k : Nat) :
    (Nat.toDigits 10 (c * 10 ^ k)).length = (Nat.toDigits 10 c).length + k := by
  induction k with
  | zero => simp
  | succ k ih =>
    have hpos : 0 < c * 10 ^ k := Nat.mul_pos (Nat.pos_of_ne_zero hc) (Nat.pow_pos (by decide))
    have hten : c * 10 ^ (k + 1) = 10 * (c * 10 ^ k) + 0 := by
      rw [Nat.pow_succ, ← Nat.mul_assoc, Nat.mul_comm, Nat.add_zero]
    rw [hten, ← Nat.toDigits_append_toDigits (by decide) hpos (by decide)]
    simp [ih, Nat.add_assoc]

/-- Zeros may stand in the coefficient or in the exponent. -/
theorem nearest_mul_pow (negative : Bool) (c k : Nat) (e : Int) :
    nearest negative ⟨c * 10 ^ k, e⟩ = nearest negative ⟨c, e + k⟩ := by
  by_cases hc : c = 0
  · simp [nearest, hc]
  have hpow : ∀ n, 0 < 10 ^ n := fun n => Nat.pow_pos (by decide)
  have hne : c * 10 ^ k ≠ 0 := Nat.mul_ne_zero hc (Nat.ne_of_gt (hpow k))
  have hpoint : ((Nat.toDigits 10 (c * 10 ^ k)).length : Int) + e =
      (Nat.toDigits 10 c).length + (e + k) := by
    rw [size_mul_pow hc]
    omega
  simp only [nearest, Nat.pow_eq, hpoint, hc, hne, false_or]
  congr 2
  -- Both fractions are the same up to a power of ten.
  by_cases he : 0 ≤ e
  · have hsum : (e + k).toNat = k + e.toNat := by omega
    rw [if_pos he, if_pos (by omega), hsum, Nat.pow_add, Nat.mul_assoc]
  rw [if_neg he]
  by_cases hk : 0 ≤ e + k
  · have hsum : k = (e + k).toNat + (-e).toNat := by omega
    rw [if_pos hk, ← Double.ofRatio_mul negative _ 1 (hpow (-e).toNat), Nat.one_mul, Nat.mul_assoc,
      ← Nat.pow_add, ← hsum]
  · have hsum : (-e).toNat = (-(e + k)).toNat + k := by omega
    rw [if_neg hk, ← Double.ofRatio_mul negative c _ (hpow k), ← Nat.pow_add, ← hsum]

theorem nearest_dropZeros_go (negative : Bool) (n : Nat) (x : Decimal) :
    (dropZeros.go n x).nearest negative = x.nearest negative := by
  induction n generalizing x with
  | zero => rfl
  | succ n ih =>
    rw [dropZeros.go]
    split
    · next hzero =>
      have hten : x.coefficient / 10 * 10 ^ 1 = x.coefficient := by omega
      rw [ih, ← Int.ofNat_one, ← nearest_mul_pow, hten]
    · rfl

theorem nearest_dropZeros (negative : Bool) (x : Decimal) :
    x.dropZeros.nearest negative = x.nearest negative :=
  nearest_dropZeros_go negative x.size x

end Decimal

/-! ### The exact value -/

namespace Magnitude

/-- A fraction that is a magnitude is nearest to that one. -/
theorem nearestRank_exact {a b m k : Nat} (hb : 0 < b) (hm : 0 < m) (hlt : m < 2 ^ 53)
    (hnormal : k = 0 ∨ 2 ^ 52 ≤ m) (h : a * 2 ^ 1074 = m * 2 ^ k * b) :
    nearestRank a b = k * 2 ^ 52 + m := by
  have hpow : 0 < 2 ^ k := Nat.pow_pos (by decide)
  have hne : m * 2 ^ k ≠ 0 := Nat.ne_of_gt (Nat.mul_pos hm hpow)
  have hshift : Nat.log2 (m * 2 ^ k) - 52 = k := by
    rcases hnormal with rfl | hge
    · have : Nat.log2 (m * 2 ^ 0) < 53 := (Nat.log2_lt hne).mpr (by simpa using hlt)
      omega
    · have : Nat.log2 (m * 2 ^ k) = 52 + k := by
        rw [Nat.log2_eq_iff hne]
        refine ⟨?_, ?_⟩
        · rw [Nat.pow_add]
          exact Nat.mul_le_mul_right _ hge
        · rw [Nat.add_right_comm, Nat.pow_add]
          exact Nat.mul_lt_mul_of_pos_right hlt hpow
      omega
  have hround : roundHalfEven (m * 2 ^ k * b) (b * 2 ^ k) = m := by
    have hmul : m * 2 ^ k * b = m * (b * 2 ^ k) := by
      rw [Nat.mul_assoc, Nat.mul_comm (2 ^ k)]
    have hpos : 0 < b * 2 ^ k := Nat.mul_pos hb hpow
    simp only [roundHalfEven, hmul, Nat.mul_div_cancel _ hpos, Nat.mul_mod_left]
    simp [hpos]
  simp only [nearestRank, Nat.pow_eq, h, Nat.mul_div_cancel _ hb, hshift, hround]

theorem ofRatio_exact {a b : Nat} {x : Magnitude} (hx : x ≠ zero) (hb : 0 < b)
    (h : a * 2 ^ 1074 = x.significand * 2 ^ x.shift * b) :
    Double.ofRatio false a b = .finite false x := by
  have hlt := x.rank_lt
  have hrank : nearestRank a b = x.rank := by
    have hpos : 0 < x.rank := Nat.pos_of_ne_zero fun h0 => hx (by cases x; cases h0; rfl)
    simp only [significand, shift, Nat.pow_eq] at h
    have := nearestRank_exact (k := x.rank / 2 ^ 52 - 1) (m := x.rank - (x.rank / 2 ^ 52 - 1) * 2 ^ 52)
      hb (by omega) (by omega) (by omega) h
    omega
  rw [Double.ofRatio, ofRatio?, dif_pos (hrank ▸ hlt)]
  simp only [hrank]
  rfl

theorem shift_le (x : Magnitude) : x.shift ≤ 2045 := by
  have := x.rank_lt
  simp only [shift, count, Nat.pow_eq] at *
  omega

theorem significand_bounds {x : Magnitude} (hx : x ≠ zero) :
    0 < x.significand ∧ x.significand < 2 ^ 53 := by
  have hpos : 0 < x.rank := Nat.pos_of_ne_zero fun h0 => hx (by cases x; cases h0; rfl)
  simp only [significand, shift, Nat.pow_eq]
  omega

/-- Powers of ten are below larger powers of five, because `2³⁰ ≤ 5¹³`. -/
theorem ten_pow_le_five_pow {n k j : Nat} (hn : n ≤ 30 * k) (hj : 13 * k + n ≤ j) :
    10 ^ n ≤ 5 ^ j :=
  calc 10 ^ n
      = 2 ^ n * 5 ^ n := Nat.mul_pow 2 5 n
    _ ≤ 2 ^ (30 * k) * 5 ^ n := Nat.mul_le_mul_right _ (Nat.pow_le_pow_right (by decide) hn)
    _ = (2 ^ 30) ^ k * 5 ^ n := by rw [Nat.pow_mul]
    _ ≤ (5 ^ 13) ^ k * 5 ^ n := Nat.mul_le_mul_right _ (Nat.pow_le_pow_left (by decide) k)
    _ = 5 ^ (13 * k + n) := by rw [← Nat.pow_mul, Nat.pow_add]
    _ ≤ 5 ^ j := Nat.pow_le_pow_right (by decide) hj

/-- Doubles lie between `10⁻³³⁰` and `10³¹⁰`. -/
theorem point_exact_bounds {x : Magnitude} (hx : x ≠ zero) :
    -330 ≤ x.exact.point ∧ x.exact.point ≤ 310 := by
  obtain ⟨hpos, hlt⟩ := significand_bounds hx
  have hshift := x.shift_le
  unfold exact
  split
  · next hge =>
    have hlarge : x.significand * 2 ^ (x.shift - 1074) < 10 ^ 310 := by
      calc x.significand * 2 ^ (x.shift - 1074)
          ≤ 2 ^ 53 * 2 ^ 971 := Nat.mul_le_mul (Nat.le_of_lt hlt)
            (Nat.pow_le_pow_right (by decide) (by omega))
        _ < 10 ^ 310 := by decide +kernel
    have := (Nat.length_toDigits_le_iff (b := 10) (by decide) (by decide)).mpr hlarge
    simp only [Decimal.point, Decimal.size, Nat.pow_eq]
    omega
  · next hnot =>
    generalize hj : 1074 - x.shift = j
    have hlarge : x.significand * 5 ^ j < 10 ^ (16 + j) := by
      calc x.significand * 5 ^ j
          < 2 ^ 53 * 5 ^ j := Nat.mul_lt_mul_of_pos_right hlt (Nat.pow_pos (by decide))
        _ ≤ 10 ^ 16 * 10 ^ j := Nat.mul_le_mul (by decide) (Nat.pow_le_pow_left (by decide) j)
        _ = 10 ^ (16 + j) := (Nat.pow_add 10 16 j).symm
    have hupper := (Nat.length_toDigits_le_iff (b := 10) (by decide) (by omega)).mpr hlarge
    have hlower : j ≤ (Nat.toDigits 10 (x.significand * 5 ^ j)).length + 330 := by
      refine Nat.le_of_not_lt fun hless => ?_
      have hsmall : 10 ^ (j - 331) ≤ x.significand * 5 ^ j :=
        Nat.le_trans (ten_pow_le_five_pow (k := 25) (by omega) (by omega))
          (Nat.le_mul_of_pos_left _ hpos)
      have hsize : (Nat.toDigits 10 (x.significand * 5 ^ j)).length ≤ j - 331 := by omega
      have hdigits : 0 < j - 331 := Nat.lt_of_lt_of_le Nat.length_toDigits_pos hsize
      have := (Nat.length_toDigits_le_iff (by decide) hdigits).mp hsize
      omega
    simp only [Decimal.point, Decimal.size, Nat.pow_eq]
    omega

theorem nearest_exact {x : Magnitude} (hx : x ≠ zero) :
    x.exact.nearest false = .finite false x := by
  have hbounds := point_exact_bounds hx
  obtain ⟨hpos, -⟩ := significand_bounds hx
  have hcoefficient : x.exact.coefficient ≠ 0 := by
    unfold exact
    split <;> exact Nat.ne_of_gt (Nat.mul_pos hpos (Nat.pow_pos (by decide)))
  simp only [Decimal.point, Decimal.size] at hbounds
  rw [Decimal.nearest, if_neg (by omega), if_neg (by omega)]
  unfold exact
  split
  · next hge =>
    refine ofRatio_exact hx (by decide) ?_
    simp only [Int.toNat_zero, Nat.pow_eq, Nat.pow_zero, Nat.mul_one]
    rw [Nat.mul_assoc, Nat.pow_sub_mul_pow 2 hge]
  · next hnot =>
    generalize hj : 1074 - x.shift = j
    have hsum : 1074 = x.shift + j := by omega
    rw [if_neg (by simp only; omega)]
    refine ofRatio_exact hx (Nat.pow_pos (by decide)) ?_
    have hneg : (-(-(j : Int))).toNat = j := by omega
    have hten : 10 ^ j = 5 ^ j * 2 ^ j := Nat.mul_pow 5 2 j
    have hparts : 2 ^ 1074 = 2 ^ x.shift * 2 ^ j := by rw [← Nat.pow_add, ← hsum]
    rw [hneg, hparts, Nat.pow_eq, Nat.pow_eq, hten]
    simp only [Nat.mul_assoc, Nat.mul_left_comm]

/-- The shortest decimal reads back. -/
theorem nearest_shortest (tie : Tie) {x : Magnitude} (hx : x ≠ zero) :
    (x.shortest tie).nearest false = .finite false x := by
  rw [shortest, if_neg hx, Decimal.nearest_dropZeros]
  cases hfound : (List.range 17).findSome? fun i =>
      (x.exact.neighbours tie (x.exact.size - (i + 1))).find? x.isReadFrom with
  | none => exact nearest_exact hx
  | some d =>
    obtain ⟨i, -, hd⟩ := List.exists_of_findSome?_eq_some hfound
    have hread : x.isReadFrom d = true := List.find?_some hd
    exact of_decide_eq_true hread

end Magnitude

end MarkupScript
