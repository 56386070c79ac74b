import MarkupScript.Token.Scan

/-!
# Which characters start which tokens

A reader decides by one character what comes next. No character that starts or continues an
identifier is a blank, a digit never starts one, and the marks of the language are neither.
-/

namespace MarkupScript

/-- Two sets whose ranges lie apart have no character in common. -/
theorem Text.CharSet.not_contains_of_apart {s t : CharSet}
    (h : s.ranges.all fun r => t.ranges.all fun q => decide (r.2 < q.1) || decide (q.2 < r.1))
    {c : Char} (hc : s.contains c = true) : t.contains c = false := by
  rw [Bool.eq_false_iff]
  intro ht
  obtain ⟨r, hr, hlow, hhigh⟩ := contains_iff.mp hc
  obtain ⟨q, hq, hlow', hhigh'⟩ := contains_iff.mp ht
  have hapart := List.all_eq_true.mp (List.all_eq_true.mp h r hr) q hq
  simp only [Bool.or_eq_true, decide_eq_true_eq] at hapart
  omega

theorem not_isAlphabetic_of_not_contains {c : Char} (h : Text.alphabetic.contains c = false) :
    Text.isAlphabetic c = false := by
  rw [Bool.eq_false_iff] at h ⊢
  intro hc
  refine h (Text.CharSet.contains_iff.mpr ?_)
  simp only [Text.isAlphabetic, Bool.or_eq_true, Bool.and_eq_true] at hc
  rcases hc with hc | hc
  · delta Char.isAlpha Char.isUpper Char.isLower at hc
    simp only [Bool.or_eq_true, Bool.and_eq_true, decide_eq_true_eq,
      UInt32.le_iff_toNat_le] at hc
    rcases hc with hc | hc
    · exact ⟨(0x41, 0x5A), List.mem_cons_self, hc.1, hc.2⟩
    · exact ⟨(0x61, 0x7A), List.mem_cons_of_mem _ List.mem_cons_self, hc.1, hc.2⟩
  · exact Text.CharSet.contains_iff.mp hc.2

theorem not_isAlphabetic_of_isBlank {c : Char} (h : Text.isBlank c = true) :
    Text.isAlphabetic c = false :=
  not_isAlphabetic_of_not_contains (Text.CharSet.not_contains_of_apart (by decide +kernel) h)

/-- A character that is a blank, a line end or a mark of byte order does not start an identifier. -/
theorem isIdentifierStart_of_gap {c : Char} (h : isLineEnd c = true ∨ isSpace c = true) :
    isIdentifierStart c = false := by
  have hblank : Text.isBlank c = true ∨ c = '\ufeff' := by
    rcases h with h | h
    · simp only [isLineEnd, Bool.or_eq_true, beq_iff_eq] at h
      rcases h with ((rfl | rfl) | rfl) | rfl <;> exact .inl (by decide)
    · simpa [isSpace] using h
  rcases hblank with h | rfl
  · have hne : c ≠ '_' ∧ c ≠ '$' := by
      constructor <;> rintro rfl <;> exact absurd h (by decide)
    simp [isIdentifierStart, not_isAlphabetic_of_isBlank h, hne.1, hne.2]
  · decide +kernel

/-- The decimal digits. -/
def Text.decimalDigits : CharSet := ⟨[(0x30, 0x39)]⟩

theorem contains_decimalDigits {c : Char} (h : c.isDigit = true) :
    Text.decimalDigits.contains c = true := by
  have := Char.isDigit_iff_toNat.mp h
  exact Text.CharSet.contains_iff.mpr ⟨_, List.mem_singleton.mpr rfl, this.1, this.2⟩

theorem isIdentifierStart_of_isDigit {c : Char} (h : c.isDigit = true) :
    isIdentifierStart c = false := by
  have halpha : Text.isAlphabetic c = false :=
    not_isAlphabetic_of_not_contains
      (Text.CharSet.not_contains_of_apart (by decide +kernel) (contains_decimalDigits h))
  have hne : c ≠ '_' ∧ c ≠ '$' := by
    constructor <;> rintro rfl <;> exact absurd h (by decide)
  simp [isIdentifierStart, halpha, hne.1, hne.2]

theorem isIdentifierPart_of_isDigit {c : Char} (h : c.isDigit = true) :
    isIdentifierPart c = true := by
  simp [isIdentifierPart, Text.isNumeric, h]

theorem isIdentifierPart_of_isIdentifierStart {c : Char} (h : isIdentifierStart c = true) :
    isIdentifierPart c = true := by
  simp only [isIdentifierStart, Bool.or_eq_true] at h
  rcases h with (h | h) | h <;> simp [isIdentifierPart, h]

/-! ### Marks -/

/-- Whether a character is an ASCII character that no word has. -/
def isMark (c : Char) : Bool := c.toNat < 0x80 && !(c.isAlphanum || c == '_' || c == '$')

theorem not_isIdentifierPart_of_isMark {c : Char} (h : isMark c = true) :
    isIdentifierPart c = false := by
  have hcheck : ∀ n < 0x80, isMark (Char.ofNat n) = true →
      isIdentifierPart (Char.ofNat n) = false := by decide +kernel
  have hlt : c.toNat < 0x80 := of_decide_eq_true (Bool.and_eq_true_iff.mp h).1
  have hc := hcheck c.toNat hlt
  rw [Char.ofNat_toNat] at hc
  exact hc h

/-- A word ends in front of a mark. -/
theorem not_isIdentifierPart_head {c : Char} (h : isMark c = true) (r : List Char) :
    ∀ d ∈ (c :: r).head?, isIdentifierPart d = false := by
  rintro d ⟨⟩
  exact not_isIdentifierPart_of_isMark h

end MarkupScript
