import MarkupScript.Proofs.Print.Comparisons
import MarkupScript.Proofs.Print.FirstCharacter

/-!
# Where expressions stand

Two things around an expression decide how its text is read: the tokens in front of it, which tell a
brace of an object from that of a block and a `<` that compares from one that opens a tag, and the
character behind it, which must not belong to its last token.
-/

namespace MarkupScript

/-- Whether a token is a number, a boolean or null. -/
def Kind.isConstant : Kind → Bool
  | number _ | boolean _ | null => true
  | _ => false

namespace Scanner

/-! ### The tokens in front -/

/-- Whether the latest token ends an operand, so that a `<` on the same line compares. -/
def endsOperand (s : Scanner) : Bool :=
  match s.tokens with
  | [] => false
  | token :: before =>
    match token.kind with
    | .symbol .rightBrace => s.objectClosed
    | .number _ | .boolean _ | .null => !before.head?.any (·.kind == .symbol .tagEnd)
    | kind => kind.endsExpression

theorem opensTag_eq (s : Scanner) :
    s.opensTag =
      (s.frames.current == .block && (s.newline || s.closingTagAhead || !s.endsOperand)) := by
  unfold opensTag endsOperand
  cases s.tokens with
  | nil => rfl
  | cons token before =>
    simp only
    split <;> simp [*]

/-- Between statements, a `<` on the same line compares. -/
def Compares (s : Scanner) : Prop := s.frames.current = .block → s.endsOperand = true

/-- Between statements, a brace opens an object. -/
def OpensObject (s : Scanner) : Prop := s.frames.current = .block → s.braceFrame = .braces

theorem OpensObject.of_latest {s : Scanner} {k : Kind} (h : s.latest? = some k)
    (hk : k.expectsOperand = true) : s.OpensObject := by
  intro _
  simp [braceFrame, h, hk]

/-- A token that can end an expression does, unless it is a constant right behind a tag. -/
theorem Compares.of_latest {s : Scanner} {k : Kind} (h : s.latest? = some k)
    (hk : k.endsExpression = true)
    (hconstant : k.isConstant = true →
      s.tokens.tail.head?.map (·.kind) ≠ some (.symbol .tagEnd)) : s.Compares := by
  intro _
  unfold endsOperand
  cases hs : s.tokens with
  | nil => simp [latest?, hs] at h
  | cons token before =>
    obtain rfl : token.kind = k := by simpa [latest?, hs] using h
    simp only [hs, List.tail_cons] at hconstant
    simp only
    have hbefore (hc : token.kind.isConstant = true) :
        (!before.head?.any (·.kind == .symbol .tagEnd)) = true := by
      have := hconstant hc
      cases hb : before.head? <;> simp_all
    split
    · next hbrace => rw [hbrace] at hk; cases hk
    · next hn => exact hbefore (by rw [hn]; rfl)
    · next hn => exact hbefore (by rw [hn]; rfl)
    · next hn => exact hbefore (by rw [hn]; rfl)
    · exact hk

theorem Compares.opensTag {s : Scanner} (h : s.Compares) (hnewline : s.newline = false)
    (hahead : s.closingTagAhead = false) : s.opensTag = false := by
  rw [opensTag_eq, hnewline, hahead]
  by_cases hb : s.frames.current = .block
  · simp [h hb]
  · simp [hb]

/-- Between statements, a `<` opens a tag at the beginning of the source and of every line. -/
theorem opensTag_of_newline {s : Scanner} {fs : Frames} (hs : s.frames = fs)
    (hblock : fs.current = .block) (hline : s.newline = true ∨ s.tokens = []) :
    s.opensTag = true := by
  rw [opensTag_eq, hs, hblock]
  rcases hline with h | h <;> simp [h, endsOperand]

/-- Behind these tokens a brace opens a block. -/
theorem braceFrame_eq_block {s : Scanner} {k : Kind} (h : s.latest? = some k)
    (hk : k ∈ [.symbol .rightParen, .symbol .arrow, .keyword .else_, .symbol .semicolon,
      .symbol .leftBrace, .symbol .rightBrace, .symbol .tagEnd]) : s.braceFrame = .block := by
  simp only [List.mem_cons, List.not_mem_nil, or_false] at hk
  rcases hk with rfl | rfl | rfl | rfl | rfl | rfl | rfl <;>
    simp [braceFrame, h, Kind.expectsOperand]

theorem braceFrame_cases (s : Scanner) : s.braceFrame = .block ∨ s.braceFrame = .braces := by
  unfold braceFrame
  split
  · exact .inl rfl
  · split
    · exact .inr rfl
    · split <;> first | exact .inl rfl | (split <;> simp)

end Scanner

/-! ### The character behind -/

/-- A text ends here, whatever its last token. -/
def EndsText (r : List Char) : Prop := ∀ c ∈ r.head?, isIdentifierPart c = false ∧ c ≠ '.'

theorem EndsText.mark {c : Char} (h : (isMark c && c != '.') = true) (r : List Char) :
    EndsText (c :: r) := by
  rintro d ⟨⟩
  rw [Bool.and_eq_true, bne_iff_ne] at h
  exact ⟨not_isIdentifierPart_of_isMark h.1, h.2⟩

namespace Expr

/-- An expression ends here. Only a tight one that is no number stands in front of a dot. -/
def Separated (e : Expr) (r : List Char) : Prop :=
  ∀ c ∈ r.head?, isIdentifierPart c = false ∧
    (c = '.' → Level.call ≤ e.level ∧ e.isNumber = false)

theorem Separated.of_endsText {r : List Char} (h : EndsText r) (e : Expr) : e.Separated r :=
  fun c hc => ⟨(h c hc).1, fun hdot => absurd hdot (h c hc).2⟩

theorem Separated.endsText {e : Expr} {r : List Char} (h : e.Separated r)
    (he : e.level < Level.call ∨ e.isNumber = true) : EndsText r := by
  refine fun c hc => ⟨(h c hc).1, fun hdot => ?_⟩
  obtain ⟨hlevel, hnumber⟩ := (h c hc).2 hdot
  rcases he with he | he
  · omega
  · rw [hnumber] at he
    cases he

/-! ### The place of an expression -/

/-- The text of an expression may start at this place. An operator behind an object needs the brace
to be read as that of an object, and comparisons must not be taken for tags: they are clear, or a
`<` compares because of the brackets around it. -/
structure Fits (e : Expr) (s : Scanner) : Prop where
  object : e.level < Level.unary → startsWithBrace e.lexemes = true → s.OpensObject
  clear : e.isClear = true ∨ s.frames.current ≠ .block
  braces : startsWithBrace e.lexemes = true → e.startsClear = true ∨ s.braceFrame = .braces
  constant : e.opensComparison = true → s.latest? ≠ some (.symbol .tagEnd)

namespace Fits

variable {e part : Expr} {s s' : Scanner}

/-- Where an operand is due. -/
theorem of_latest {k : Kind} (h : s.latest? = some k) (hk : k.expectsOperand = true)
    (hclear : e.isClear = true ∨ s.frames.current ≠ .block) : e.Fits s where
  object _ _ := .of_latest h hk
  clear := hclear
  braces _ := .inr (by simp [Scanner.braceFrame, h, hk])
  constant _ := by
    rw [h]
    rintro ⟨⟩
    cases hk

/-- In brackets, behind any token but a tag. -/
theorem inside (hframe : s.frames.current ≠ .block) (hclear : e.isClearInside = true)
    (hlatest : s.latest? ≠ some (.symbol .tagEnd)) : e.Fits s where
  object _ _ hblock := absurd hblock hframe
  clear := .inr hframe
  braces hb := .inl (by simpa [isClearInside, hb] using hclear)
  constant _ := hlatest

/-- A part behind a token that leaves an operand due. -/
theorem operand {s₀ : Scanner} {ls ms : List Lexeme} {l : Lexeme} {fs : Frames} {r r' : List Char}
    (h : e.Fits s) (hs : Scanner.Scans s₀ ls fs r s)
    (hs' : Scanner.Scans s₀ (ms ++ [l]) fs r' s') (hl : l.kind.expectsOperand = true)
    (hclear : e.isClear = true → part.isClear = true) : part.Fits s' := by
  refine .of_latest hs'.latest hl (h.clear.imp hclear fun hframe => ?_)
  rwa [hs'.frames, ← hs.frames]

/-- The part that the text of an operator starts with. -/
theorem leftmost (h : e.Fits s) (hlevel : e.level < Level.unary)
    (hbrace : startsWithBrace part.lexemes = true → startsWithBrace e.lexemes = true)
    (hstarts : e.startsClear = part.startsClear) (hclear : e.isClear = true → part.isClear = true)
    (hconstant : part.opensComparison = true → e.opensComparison = true) : part.Fits s where
  object _ hb := h.object hlevel (hbrace hb)
  clear := h.clear.imp_left hclear
  braces hb := hstarts ▸ h.braces (hbrace hb)
  constant hc := h.constant (hconstant hc)

theorem opensComparison_eq_false (h : Level.call ≤ e.level) : e.opensComparison = false := by
  cases e with
  | binary left op right span =>
    have hop := Level.binary_lt_unary op
    have hcall : Level.unary < Level.call := by decide
    exact absurd h (Nat.not_le.mpr (Nat.lt_trans hop hcall))
  | conditional test consequent alternate span => exact absurd h (by simp only [level]; decide)
  | _ => rfl

/-- An expression that is tight enough for members and calls. -/
theorem of_tight (hlevel : Level.call ≤ e.level)
    (hclear : e.isClear = true ∨ s.frames.current ≠ .block)
    (hbraces : startsWithBrace e.lexemes = true → e.startsClear = true ∨ s.braceFrame = .braces) :
    e.Fits s where
  object hlow := absurd (Nat.lt_of_lt_of_le hlow (by decide)) (Nat.not_lt.mpr hlevel)
  clear := hclear
  braces := hbraces
  constant hc := by
    rw [opensComparison_eq_false hlevel] at hc
    cases hc

/-- The part that the text of a member or call starts with. -/
theorem tight (h : e.Fits s) (hlevel : Level.call ≤ part.level)
    (hbrace : startsWithBrace part.lexemes = true → startsWithBrace e.lexemes = true)
    (hstarts : e.startsClear = part.startsClear)
    (hclear : e.isClear = true → part.isClear = true) : part.Fits s :=
  .of_tight hlevel (h.clear.imp_left hclear) fun hb => hstarts ▸ h.braces (hbrace hb)

end Fits

end Expr

end MarkupScript
