import MarkupScript.Proofs.Token.Numbers

/-!
# Numbers in documents

In a JSON document a finite number is a numeral, with a fraction or with a power of ten. It reads back
as the number, its sign included, so different finite numbers have different texts. That holds of the
two zeros as well.
-/

namespace MarkupScript

/-! ### Signs -/

theorem Double.ofRatio_eq_finite {a b : Nat} {x : Magnitude}
    (h : ofRatio false a b = .finite false x) (negative : Bool) :
    ofRatio negative a b = .finite negative x := by
  unfold ofRatio at h ⊢
  cases hratio : Magnitude.ofRatio? a b with
  | none =>
    rw [hratio] at h
    cases h
  | some y =>
    rw [hratio] at h
    cases h
    rfl

theorem Decimal.nearest_eq_finite {d : Decimal} {x : Magnitude}
    (h : d.nearest false = .finite false x) (negative : Bool) :
    d.nearest negative = .finite negative x := by
  simp only [nearest] at h ⊢
  split_ifs at h ⊢
  · cases h
    rfl
  · exact Double.ofRatio_eq_finite h negative
  · exact Double.ofRatio_eq_finite h negative

/-- The shortest decimal reads back with either sign. -/
theorem Magnitude.nearest_shortest_signed (tie : Tie) (x : Magnitude) (negative : Bool) :
    (x.shortest tie).nearest negative = .finite negative x := by
  by_cases hx : x = zero
  · subst hx
    rw [shortest, if_pos rfl]
    rfl
  · exact Decimal.nearest_eq_finite (nearest_shortest tie hx) negative

/-! ### The text of a decimal -/

namespace Decimal

/-- The text of a decimal in a document. -/
def documentText (d : Decimal) : String :=
  if -5 < d.point ∧ d.point ≤ 16 then
    if 0 ≤ d.exponent then d.positional ++ ".0" else d.positional
  else d.scientific

theorem digits?_toDigits (n : Nat) : readExponent?.digits? (Nat.toDigits 10 n) = some (n : Int) := by
  have hvalue : digitsValue (Nat.toDigits 10 n) = n := Nat.ofDigitChars_ten_toDigits
  rw [readExponent?.digits?, if_pos ⟨Nat.toDigits_ne_nil, all_isDigit_toDigits n⟩, hvalue]

/-- With a power of ten, the text stands for the decimal itself. -/
theorem scientific_eq_numeral (x : Decimal) :
    ∃ w f r, IsNumeral w f ∧ x.scientific.toList = numeral w f ++ 'e' :: r ∧
      IsPower ('e' :: r) (x.point - 1) ∧
      (⟨digitsValue (w ++ f), x.point - 1 - f.length⟩ : Decimal) = x := by
  have hsize : x.digits.length = x.size := rfl
  have hpos : 0 < x.size := Nat.length_toDigits_pos
  have hpoint : x.point = x.size + x.exponent := rfl
  have hdigits : x.digits.all Char.isDigit = true := all_isDigit_toDigits x.coefficient
  have hsplit := List.take_append_drop 1 x.digits
  rw [← hsplit, List.all_append, Bool.and_eq_true] at hdigits
  have hvalue : digitsValue (x.digits.take 1 ++ x.digits.drop 1) = x.coefficient := by
    rw [hsplit]
    exact Nat.ofDigitChars_ten_toDigits
  refine ⟨x.digits.take 1, x.digits.drop 1,
    (if x.point - 1 < 0 then '-' else '+') :: Nat.toDigits 10 (x.point - 1).natAbs,
    ⟨?_, hdigits.1, hdigits.2⟩, ?_, .inr ⟨_, rfl, ?_⟩, ?_⟩
  · rw [← List.length_pos_iff, List.length_take, hsize]
    omega
  · simp only [scientific, numeral, Nat.toString_eq_repr, String.toList_append, String.toList_ofList,
      Nat.toList_repr]
    split <;> split <;> simp
  · split
    · rw [readExponent?, digits?_toDigits, Option.map_some]
      congr 1
      omega
    · rw [readExponent?, digits?_toDigits]
      congr 1
      omega
  · have hlength : (x.digits.drop 1).length = x.size - 1 := by simp [hsize]
    obtain ⟨coefficient, exponent⟩ := x
    rw [hvalue, hlength]
    congr 1
    simp only at hpoint
    omega

/-- The text of a decimal is a numeral, perhaps with a power of ten, and what it stands for is as
near to doubles as the decimal. -/
theorem documentText_eq_numeral (x : Decimal) :
    ∃ w f r e, IsNumeral w f ∧ x.documentText.toList = numeral w f ++ r ∧ IsPower r e ∧
      ∀ negative, nearest negative ⟨digitsValue (w ++ f), e - (f.length : Int)⟩ =
        x.nearest negative := by
  unfold documentText
  split
  · split
    · next he =>
      have hvalue : digitsValue x.digits = x.coefficient := Nat.ofDigitChars_ten_toDigits
      refine ⟨x.digits ++ List.replicate x.exponent.toNat '0', ['0'], [], 0, ⟨?_, ?_, rfl⟩, ?_,
        .inl ⟨rfl, rfl⟩, fun negative => ?_⟩
      · simp [show x.digits ≠ [] from Nat.toDigits_ne_nil]
      · simp [show x.digits.all Char.isDigit = true from all_isDigit_toDigits x.coefficient]
      · simp [positional, he, numeral]
      · -- All zeros, the one behind the point included, are moved to the exponent.
        have hzeros : x.digits ++ List.replicate x.exponent.toNat '0' ++ ['0'] =
            x.digits ++ List.replicate (x.exponent.toNat + 1) '0' := by
          rw [List.append_assoc, List.replicate_succ']
        rw [hzeros, digitsValue_eq, Nat.ofDigitChars_append, ← digitsValue_eq, hvalue,
          Nat.ofDigitChars_replicate_zero, Nat.mul_comm, nearest_mul_pow]
        congr 2
        simp
        omega
    · obtain ⟨w, f, hnumeral, htext, hnearest⟩ := x.positional_eq_numeral
      refine ⟨w, f, [], 0, hnumeral, by rw [htext, List.append_nil], .inl ⟨rfl, rfl⟩, ?_⟩
      rw [Int.zero_sub]
      exact hnearest
  · obtain ⟨w, f, r, hnumeral, htext, hpower, hsame⟩ := x.scientific_eq_numeral
    exact ⟨w, f, 'e' :: r, _, hnumeral, htext, hpower, fun _ => by rw [hsame]⟩

end Decimal

/-! ### Reading back -/

namespace Double

/-- What starts with a digit is no word. -/
theorem readUnsigned?_of_isDigit {negative : Bool} {c : Char} {cs : List Char} {d : Decimal}
    (hc : c.isDigit = true) (h : Decimal.read? (c :: cs) = some d) :
    readUnsigned? negative (c :: cs) = some (d.nearest negative) := by
  have hlower : c.toLower = c := by
    have hnine : c.val ≤ '9'.val := of_decide_eq_true (Bool.and_eq_true_iff.mp hc).2
    refine dif_neg ?_
    rintro ⟨hupper, -⟩
    exact absurd (UInt32.le_trans hupper hnine) (by decide)
  have hword : ∀ word : String, word.toList.head? ≠ some c →
      String.ofList ((c :: cs).map Char.toLower) ≠ word := by
    rintro word hhead rfl
    rw [String.toList_ofList, List.map_cons, hlower] at hhead
    exact hhead rfl
  have hletter : ∀ l : Char, l.isDigit = false → some l ≠ some c := by
    rintro l hl ⟨⟩
    exact absurd hc (by simp [hl])
  have hinf := hword "inf" (hletter 'i' rfl)
  have hinfinity := hword "infinity" (hletter 'i' rfl)
  have hnan := hword "nan" (hletter 'n' rfl)
  rw [readUnsigned?, if_neg (not_or.mpr ⟨hinf, hinfinity⟩), if_neg hnan, h]
  rfl

/-- The text of a number in a document reads back as that number. -/
theorem read?_json {x : Double} {text : String} (h : x.json? = some text) :
    read? text = some x := by
  cases x with
  | nan => cases h
  | infinite negative => cases h
  | finite negative m =>
    obtain ⟨w, f, r, e, hnumeral, htext, hpower, hnearest⟩ :=
      (m.shortest jsonTie).documentText_eq_numeral
    obtain ⟨c, cs, hcons, hc⟩ := hnumeral.exists_cons
    have hread := hnumeral.read?_power hpower
    rw [hcons, List.cons_append] at htext hread
    have hvalue : readUnsigned? negative (c :: (cs ++ r)) = some (finite negative m) := by
      rw [readUnsigned?_of_isDigit hc hread, hnearest, Magnitude.nearest_shortest_signed]
    have hchars : text.toList = (if negative then ['-'] else []) ++ c :: (cs ++ r) := by
      obtain rfl : signText negative ++ (m.shortest jsonTie).documentText = text :=
        Option.some.inj h
      rw [String.toList_append, htext]
      cases negative <;> rfl
    rw [read?, hchars]
    cases negative with
    | true => exact hvalue
    | false =>
      have hsign : c ≠ '-' ∧ c ≠ '+' := by
        constructor <;> rintro rfl <;> exact absurd hc (by decide)
      rw [if_neg Bool.false_ne_true, List.nil_append]
      split
      · next hcase => exact absurd (List.cons.inj hcase).1 hsign.1
      · next hcase => exact absurd (List.cons.inj hcase).1 hsign.2
      · exact hvalue

theorem json?_inj {x y : Double} (hx : x.isFinite = true) (h : x.json? = y.json?) : x = y := by
  obtain ⟨text, htext⟩ : ∃ text, x.json? = some text := by
    cases x with
    | finite => exact ⟨_, rfl⟩
    | _ => cases hx
  exact Option.some.inj ((read?_json htext).symm.trans (read?_json (h ▸ htext)))

end Double

end MarkupScript
