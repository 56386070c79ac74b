import MarkupScript.Proofs.Number.Nearest

/-!
# Whole numbers as doubles

A double is a whole number if its value is, counted in parts of `2⁻¹⁰⁷⁴`. The double nearest to a
whole number up to `2⁵³` is that number, and no other double is. Beyond that, neighbouring whole
numbers may have the same nearest double.
-/

namespace MarkupScript

namespace Magnitude

/-- The value of a magnitude can be read off its place on the scale. -/
theorem units_of_rank {x : Magnitude} {m k : Nat} (hrank : x.rank = k * 2 ^ 52 + m)
    (hlt : m < 2 ^ 53) (hnormal : k = 0 ∨ 2 ^ 52 ≤ m) : x.units = m * 2 ^ k := by
  have hshift : x.shift = k := by
    simp only [shift, Nat.pow_eq, hrank]
    omega
  have hsignificand : x.significand = m := by
    simp only [significand, Nat.pow_eq, hshift, hrank]
    omega
  rw [units, hshift, hsignificand, Nat.pow_eq]

/-- Magnitudes that are larger on the scale have larger values. -/
theorem units_lt_units {x y : Magnitude} (h : x.rank < y.rank) : x.units < y.units := by
  have hlt : x.significand < 2 ^ 53 := by
    simp only [significand, shift, Nat.pow_eq]
    omega
  have hpow (k : Nat) : 0 < 2 ^ k := Nat.pow_pos (by decide)
  simp only [units, Nat.pow_eq]
  by_cases hshift : x.shift = y.shift
  · have hless : x.significand < y.significand := by
      simp only [significand, shift, Nat.pow_eq] at hshift ⊢
      omega
    rw [hshift]
    exact Nat.mul_lt_mul_of_pos_right hless (hpow _)
  · -- The larger one is in a higher binade, and has a full significand there.
    have hbinade : x.shift + 1 ≤ y.shift ∧ 2 ^ 52 ≤ y.significand := by
      simp only [significand, shift, Nat.pow_eq] at hshift ⊢
      omega
    calc x.significand * 2 ^ x.shift
        < 2 ^ 53 * 2 ^ x.shift := Nat.mul_lt_mul_of_pos_right hlt (hpow _)
      _ = 2 ^ 52 * 2 ^ (x.shift + 1) := by omega
      _ ≤ y.significand * 2 ^ y.shift :=
        Nat.mul_le_mul hbinade.2 (Nat.pow_le_pow_right (by decide) hbinade.1)

theorem eq_of_units_eq {x y : Magnitude} (h : x.units = y.units) : x = y := by
  have hrank : x.rank = y.rank := by
    rcases Nat.lt_trichotomy x.rank y.rank with hlt | heq | hgt
    · exact absurd h (Nat.ne_of_lt (units_lt_units hlt))
    · exact heq
    · exact absurd h (Nat.ne_of_gt (units_lt_units hgt))
  cases x
  cases y
  cases hrank
  rfl

/-- A whole number up to `2⁵³` has a significand that fits. -/
theorem exists_significand {n : Nat} (hpos : 0 < n) (hle : n ≤ 2 ^ 53) :
    ∃ m k, 2 ^ 52 ≤ m ∧ m < 2 ^ 53 ∧ k ≤ 1075 ∧ n * 2 ^ 1074 = m * 2 ^ k := by
  rcases Nat.lt_or_eq_of_le hle with hlt | rfl
  · have hne : n ≠ 0 := Nat.ne_of_gt hpos
    have hsize : n.log2 ≤ 52 := Nat.le_of_lt_succ ((Nat.log2_lt hne).mpr hlt)
    obtain ⟨hlower, hupper⟩ := (Nat.log2_eq_iff hne).mp rfl
    have hpow : 0 < 2 ^ (52 - n.log2) := Nat.pow_pos (by decide)
    refine ⟨n * 2 ^ (52 - n.log2), 1022 + n.log2, ?_, ?_, by omega, ?_⟩
    · calc 2 ^ 52
          = 2 ^ n.log2 * 2 ^ (52 - n.log2) := by rw [← Nat.pow_add, Nat.add_sub_cancel' hsize]
        _ ≤ n * 2 ^ (52 - n.log2) := Nat.mul_le_mul_right _ hlower
    · calc n * 2 ^ (52 - n.log2)
          < 2 ^ (n.log2 + 1) * 2 ^ (52 - n.log2) := Nat.mul_lt_mul_of_pos_right hupper hpow
        _ = 2 ^ 53 := by
          rw [← Nat.pow_add]
          congr 1
          omega
    · rw [Nat.mul_assoc, ← Nat.pow_add]
      congr 2
      omega
  · refine ⟨2 ^ 52, 1074 + 1, Nat.le_refl _, by decide, Nat.le_refl _, ?_⟩
    generalize 1074 = k
    omega

end Magnitude

namespace Double

/-- A double stands for a whole number: it is that number, as far as doubles have all of them. -/
def Counts (d : Double) (n : Nat) : Prop :=
  n ≤ 2 ^ 53 → ∃ x : Magnitude, d = .finite false x ∧ x.units = n * 2 ^ 1074

theorem ofNat_eq {n r : Nat} (h : Magnitude.nearestRank n 1 = r) (hr : r < Magnitude.count) :
    ofNat n = .finite false ⟨r, hr⟩ := by
  subst h
  rw [ofNat, ofRatio, Magnitude.ofRatio?, dif_pos hr]
  rfl

/-- The double nearest to a whole number stands for it. -/
theorem counts_ofNat (n : Nat) : (ofNat n).Counts n := by
  intro hle
  rcases Nat.eq_zero_or_pos n with rfl | hpos
  · have hrank : Magnitude.nearestRank 0 1 = 0 := by
      unfold Magnitude.nearestRank
      generalize Nat.pow 2 1074 = parts
      rw [Nat.zero_mul]
      rfl
    exact ⟨.zero, ofNat_eq hrank _, (Nat.zero_mul _).symm⟩
  · obtain ⟨m, k, hnormal, hlt, hk, hvalue⟩ := Magnitude.exists_significand hpos hle
    have hrank : Magnitude.nearestRank n 1 = k * 2 ^ 52 + m :=
      Magnitude.nearestRank_exact (by decide) (by omega) hlt (.inr hnormal) (by rw [hvalue, Nat.mul_one])
    have hcount : k * 2 ^ 52 + m < Magnitude.count := by
      simp only [Magnitude.count, Nat.pow_eq]
      omega
    refine ⟨⟨k * 2 ^ 52 + m, hcount⟩, ofNat_eq hrank hcount, ?_⟩
    rw [hvalue]
    exact Magnitude.units_of_rank rfl hlt (.inr hnormal)

/-- A double stands for one whole number only. -/
theorem Counts.inj {d : Double} {m n : Nat} (hm : d.Counts m) (hn : d.Counts n) (hmle : m ≤ 2 ^ 53)
    (hnle : n ≤ 2 ^ 53) : m = n := by
  obtain ⟨x, rfl, hx⟩ := hm hmle
  obtain ⟨y, hxy, hy⟩ := hn hnle
  cases hxy
  generalize 1074 = k at hx hy
  exact Nat.eq_of_mul_eq_mul_right (Nat.pow_pos (by decide)) (hx.symm.trans hy)

/-- Only one double stands for a whole number. -/
theorem Counts.unique {d e : Double} {n : Nat} (hd : d.Counts n) (he : e.Counts n)
    (hle : n ≤ 2 ^ 53) : d = e := by
  obtain ⟨x, rfl, hx⟩ := hd hle
  obtain ⟨y, rfl, hy⟩ := he hle
  rw [Magnitude.eq_of_units_eq (hx.trans hy.symm)]

end Double

end MarkupScript
