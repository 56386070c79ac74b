import MarkupScript.Proofs.Number.Nearest
import MarkupScript.Proofs.Token.Words

/-!
# Reading numbers

The positional text of a decimal is a numeral: digits, and a point with further digits if there is a
fraction. A numeral is read to its end and stands for the decimal it was written for, up to zeros at
the end of the coefficient. So the literal of a finite number reads back as that number.
-/

namespace MarkupScript

/-- A numeral with the given digits before and behind the point. -/
def numeral (whole fraction : List Char) : List Char :=
  if fraction = [] then whole else whole ++ '.' :: fraction

/-- The parts of a numeral are digits, and some stand before the point. -/
structure IsNumeral (whole fraction : List Char) : Prop where
  ne_nil : whole ≠ []
  whole : whole.all Char.isDigit = true
  fraction : fraction.all Char.isDigit = true

/-- What may stand behind a numeral and what it multiplies by: nothing, or a power of ten. -/
def IsPower (r : List Char) (e : Int) : Prop :=
  r = [] ∧ e = 0 ∨ ∃ ds, r = 'e' :: ds ∧ Decimal.readExponent? ds = some e

theorem dropWhile_append_of_all {p : Char → Bool} {cs r : List Char} (h : cs.all p = true)
    (hr : ∀ c ∈ r.head?, p c = false) : (cs ++ r).dropWhile p = r := by
  rw [List.dropWhile_append_of_pos (List.all_eq_true.mp h)]
  cases r with
  | nil => rfl
  | cons c r => simp [hr c rfl]

namespace IsNumeral

variable {w f : List Char}

/-- What a numeral with a power of ten stands for. -/
theorem read?_power (h : IsNumeral w f) {r : List Char} {e : Int} (hr : IsPower r e) :
    Decimal.read? (numeral w f ++ r) = some ⟨digitsValue (w ++ f), e - (f.length : Int)⟩ := by
  have hpoint : ∀ c ∈ ('.' :: (f ++ r)).head?, Char.isDigit c = false := by rintro c ⟨⟩; rfl
  have hends : ∀ c ∈ r.head?, Char.isDigit c = false := by
    obtain ⟨rfl, -⟩ | ⟨ds, rfl, -⟩ := hr
    · rintro c ⟨⟩
    · rintro c ⟨⟩
      rfl
  unfold numeral Decimal.read?
  split
  · next hf =>
    subst hf
    rw [takeWhile_append_of_all h.whole hends, dropWhile_append_of_all h.whole hends]
    obtain ⟨rfl, rfl⟩ | ⟨ds, rfl, he⟩ := hr
    · simp [h.ne_nil]
    · simp [h.ne_nil, he]
  · have happend : w ++ '.' :: f ++ r = w ++ '.' :: (f ++ r) := by simp
    rw [happend, takeWhile_append_of_all h.whole hpoint, dropWhile_append_of_all h.whole hpoint]
    simp only [takeWhile_append_of_all h.fraction hends, dropWhile_append_of_all h.fraction hends]
    obtain ⟨rfl, rfl⟩ | ⟨ds, rfl, he⟩ := hr
    · simp [h.ne_nil]
    · simp [h.ne_nil, he]

/-- What a numeral stands for. -/
theorem read? (h : IsNumeral w f) :
    Decimal.read? (numeral w f) = some ⟨digitsValue (w ++ f), -(f.length : Int)⟩ := by
  simpa using h.read?_power (.inl ⟨rfl, rfl⟩)

/-- A numeral is read to its end. -/
theorem text (h : IsNumeral w f) {r : List Char}
    (hr : ∀ c ∈ r.head?, c.isDigit = false ∧ c ≠ '.' ∧ c ≠ 'e' ∧ c ≠ 'E') :
    NumberLiteral.text (numeral w f ++ r) = numeral w f := by
  have hpoint : ∀ c ∈ ('.' :: (f ++ r)).head?, Char.isDigit c = false := by rintro c ⟨⟩; rfl
  have hdigit : ∀ c ∈ r.head?, Char.isDigit c = false := fun c hc => (hr c hc).1
  have hexponent : NumberLiteral.exponent r = [] := by
    cases r with
    | nil => rfl
    | cons c r => simp [NumberLiteral.exponent, (hr c rfl).2.2.1, (hr c rfl).2.2.2]
  unfold numeral NumberLiteral.text
  split
  · have hfraction : NumberLiteral.fraction r = [] := by
      cases r with
      | nil => rfl
      | cons c r =>
        unfold NumberLiteral.fraction
        split
        · next hc => exact absurd (List.cons.inj hc).1 (hr c rfl).2.1
        · rfl
    simp [takeWhile_append_of_all h.whole hdigit, hfraction, hexponent]
  · next hf =>
    have hfraction : NumberLiteral.fraction ('.' :: (f ++ r)) = '.' :: f := by
      have hhead : (f ++ r).head? ≠ some '.' := by
        cases f with
        | nil => exact absurd rfl hf
        | cons c f =>
          rintro ⟨⟩
          exact absurd h.fraction (by simp)
      rw [NumberLiteral.fraction, if_neg hhead, takeWhile_append_of_all h.fraction hdigit]
    have happend : w ++ '.' :: f ++ r = w ++ '.' :: (f ++ r) := by simp
    rw [happend, takeWhile_append_of_all h.whole hpoint]
    simp [hfraction, hexponent]

end IsNumeral

/-! ### The text of a decimal -/

namespace Decimal

theorem all_isDigit_toDigits (n : Nat) : (Nat.toDigits 10 n).all Char.isDigit = true :=
  List.all_eq_true.mpr fun _ hc => Nat.isDigit_of_mem_toDigits (by decide) (by decide) hc

theorem digitsValue_eq (ds : List Char) : digitsValue ds = Nat.ofDigitChars 10 ds 0 := rfl

/-- The positional text is a numeral, and what it stands for is as near to doubles as the decimal. -/
theorem positional_eq_numeral (x : Decimal) :
    ∃ w f, IsNumeral w f ∧ x.positional.toList = numeral w f ∧
      ∀ negative, nearest negative ⟨digitsValue (w ++ f), -(f.length : Int)⟩ =
        x.nearest negative := by
  have hne : x.digits ≠ [] := Nat.toDigits_ne_nil
  have hdigits : x.digits.all Char.isDigit = true := all_isDigit_toDigits x.coefficient
  have hsize : x.digits.length = x.size := rfl
  have hvalue : digitsValue x.digits = x.coefficient := Nat.ofDigitChars_ten_toDigits
  unfold positional
  split
  · next he =>
    refine ⟨x.digits ++ List.replicate x.exponent.toNat '0', [], ⟨?_, ?_, rfl⟩, ?_, fun negative => ?_⟩
    · simp [hne]
    · simp [hdigits]
    · simp [numeral]
    · rw [digitsValue_eq, List.append_nil, Nat.ofDigitChars_append, ← digitsValue_eq, hvalue,
        Nat.ofDigitChars_replicate_zero, Nat.mul_comm, nearest_mul_pow]
      congr 2
      simp
      omega
  -- With a fraction, the numeral stands for the decimal itself.
  have hsame : ∀ w f : List Char, digitsValue (w ++ f) = x.coefficient →
      -(f.length : Int) = x.exponent →
      (⟨digitsValue (w ++ f), -(f.length : Int)⟩ : Decimal) = x := by
    intro w f hwf hf
    rw [hwf, hf]
  have hpoint : x.point = x.size + x.exponent := rfl
  split
  · next he hp =>
    have hlen : (x.digits.drop x.point.toNat).length = x.size - x.point.toNat := by simp [hsize]
    have hsplit := List.take_append_drop x.point.toNat x.digits
    rw [← hsplit, List.all_append, Bool.and_eq_true] at hdigits
    refine ⟨x.digits.take x.point.toNat, x.digits.drop x.point.toNat, ⟨?_, hdigits.1, hdigits.2⟩, ?_,
      fun negative => ?_⟩
    · simp [hne]
      omega
    · rw [numeral, if_neg (List.length_pos_iff.mp (by omega))]
      simp
    · rw [hsame _ _ (by rw [hsplit, hvalue]) (by omega)]
  · next he hp =>
    refine ⟨['0'], List.replicate (-x.point).toNat '0' ++ x.digits, ⟨by simp, rfl, ?_⟩, ?_,
      fun negative => ?_⟩
    · simp [hdigits]
    · simp [numeral, hne]
    · rw [hsame]
      · rw [digitsValue_eq, List.singleton_append, Nat.ofDigitChars_cons, Nat.ofDigitChars_append,
          Nat.ofDigitChars_replicate_zero]
        exact hvalue
      · simp [hsize]
        omega

end Decimal

/-- The literal of a finite number is a numeral that stands for the number. -/
theorem Double.literal_eq_numeral {x : Double} (hfinite : x.isFinite = true)
    (hunsigned : x.isUnsigned = true) :
    ∃ w f, IsNumeral w f ∧ x.literal.toList = numeral w f ∧
      Decimal.nearest false ⟨digitsValue (w ++ f), -(f.length : Int)⟩ = x := by
  cases x with
  | nan => cases hfinite
  | infinite negative => cases hfinite
  | finite negative m =>
    obtain rfl : negative = false := by simpa [isUnsigned] using hunsigned
    by_cases hm : m = .zero
    · exact ⟨['0'], [], ⟨by simp, rfl, rfl⟩, by simp [literal, hm, numeral], by subst hm; rfl⟩
    · obtain ⟨w, f, hnumeral, htext, hvalue⟩ := (m.shortest positionalTie).positional_eq_numeral
      refine ⟨w, f, hnumeral, ?_, ?_⟩
      · simp [literal, hm, signText, htext]
      · rw [hvalue, Magnitude.nearest_shortest positionalTie hm]

/-! ### The token of a number -/

/-- A numeral starts with a digit. -/
theorem IsNumeral.exists_cons {w f : List Char} (h : IsNumeral w f) :
    ∃ c cs, numeral w f = c :: cs ∧ c.isDigit = true := by
  cases w with
  | nil => exact absurd rfl h.ne_nil
  | cons c w =>
    have hc := h.whole
    simp only [List.all_cons, Bool.and_eq_true] at hc
    unfold numeral
    split
    · exact ⟨c, w, rfl, hc.1⟩
    · exact ⟨c, w ++ '.' :: f, rfl, hc.1⟩

namespace Scanner

theorem startsToken_of_isDigit {c : Char} (h : c.isDigit = true) (r : List Char) :
    startsToken (c :: r) = true := by
  have hblank : Text.isBlank c = false :=
    Text.CharSet.not_contains_of_apart (by decide) (contains_decimalDigits h)
  have hne : ∀ d : Char, d.isDigit = false → c ≠ d := by
    rintro d hd rfl
    exact absurd h (by simp [hd])
  simp [startsToken, isLineEnd, isSpace, hblank, hne]

theorem script_eq_number {s : Scanner} {c : Char} (h : c.isDigit = true) :
    s.script c = s.number := by
  have hquote : c ≠ '"' ∧ c ≠ '\'' := by
    constructor <;> rintro rfl <;> exact absurd h (by decide)
  unfold script
  simp [hquote.1, hquote.2, h]

namespace Scans

variable {s s₁ : Scanner} {ls : List Lexeme} {fs : Frames} {r : List Char}

theorem number {x : Double} (h : Scans s ls fs (x.literal.toList ++ r) s₁)
    (hfinite : x.isFinite = true) (hunsigned : x.isUnsigned = true)
    (hr : ∀ c ∈ r.head?, isIdentifierPart c = false ∧ c ≠ '.') (hfs : fs.current.isTag = false) :
    ∃ s₂, Scans s (ls ++ [{ kind := .number x }]) fs r s₂ ∧ s₂.tokens.tail = s₁.tokens := by
  obtain ⟨w, f, hnumeral, htext, hvalue⟩ := Double.literal_eq_numeral hfinite hunsigned
  obtain ⟨c, cs, hcons, hc⟩ := hnumeral.exists_cons
  have hends : ∀ c ∈ r.head?, c.isDigit = false ∧ c ≠ '.' ∧ c ≠ 'e' ∧ c ≠ 'E' := by
    intro d hd
    obtain ⟨hpart, hpoint⟩ := hr d hd
    refine ⟨?_, hpoint, ?_, ?_⟩
    · rw [Bool.eq_false_iff]
      intro hdigit
      exact absurd (isIdentifierPart_of_isDigit hdigit) (by simp [hpart])
    all_goals rintro rfl; exact absurd hpart (by decide +kernel)
  have hne : c ≠ '<' ∧ c ≠ '@' := by
    constructor <;> rintro rfl <;> exact absurd hc (by decide)
  rw [htext] at h
  have hrest : numeral w f ++ r = c :: (cs ++ r) := by rw [hcons, List.cons_append]
  have htoken : s₁.token = .ok { s₁.emit (.number x) (s₁.place.right (numeral w f).length) r with
      frames := fs, objectClosed := s₁.objectClosed } := by
    have hstart : Scans s ls fs (c :: (cs ++ r)) s₁ := hrest ▸ h
    rw [hstart.token_of_not_isTag hfs hne, script_eq_number hc, Scanner.number, h.rest,
      hnumeral.text hends, hnumeral.read?]
    simp only [hvalue, take, h.rest, List.drop_left, ← h.frames]
    rfl
  refine ⟨_, h.emit (l := { kind := .number x }) ?_ ?_ (by rintro ⟨⟩) rfl htoken, rfl⟩
  · rw [hrest]
    exact startsToken_of_isDigit hc _
  · rw [hrest]
    simp only [List.length_append, List.length_cons]
    omega

end Scans

end Scanner

end MarkupScript
