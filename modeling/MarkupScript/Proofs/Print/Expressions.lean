import MarkupScript.Proofs.Print.Places

/-!
# Reading printed expressions

The tokens of a printed expression are its lexemes. There is one theorem for each form of
expression: if its parts are read from their texts, so is the whole. A part is read wherever it
stands, so the theorems hold behind any tokens and in front of anything that does not continue the text, except
that comparisons have to be told from tags.
-/

namespace MarkupScript

/-! ### Texts of lists -/

/-- The text of a property. -/
def Property.print (indent : Nat) (p : Property) : String :=
  if p.shorthand then p.key else keyText p.key ++ ": " ++ p.value.print indent

@[simp] theorem Expr.inPlace_assignment (e : Expr) (text : String) :
    e.inPlace Level.assignment text = text := by
  have h : ¬e.level < Level.assignment := Nat.not_lt.mpr e.one_le_level
  simp [inPlace, parenthesisedIf, h]

@[simp] theorem Expr.inPlace_any (e : Expr) (text : String) : e.inPlace Level.any text = text := by
  simp [inPlace, parenthesisedIf, Level.any]

theorem printExprs_eq (indent : Nat) (es : List Expr) :
    printExprs indent es = es.map (Expr.print indent) := by
  induction es with
  | nil => rfl
  | cons e es ih => simp [printExprs, ih]

theorem printProperties_eq (indent : Nat) (ps : List Property) :
    printProperties indent ps = ps.map (Property.print indent) := by
  induction ps with
  | nil => rfl
  | cons p ps ih =>
    obtain ⟨key, value, shorthand⟩ := p
    simp [printProperties, Property.print, ih]

namespace Scanner.Scans

variable {s₀ s s₁ : Scanner} {ls : List Lexeme} {fs : Frames} {r : List Char}

/-- Items with commas between them are read if each item is, wherever it stands. -/
theorem commaSeparated {α : Type} {text : α → String} (lexemes : α → List Lexeme)
    (P : Scanner → Prop) (hcomma : ∀ s, s.latest? = some (.symbol .comma) → P s) {xs : List α}
    (hitem : ∀ x ∈ xs, ∀ {ls r s}, Scans s₀ ls fs ((text x).toList ++ r) s → EndsText r → P s →
      ∃ s₁, Scans s₀ (ls ++ lexemes x) fs r s₁) (hfs : fs.current.isTag = false)
    (h : Scans s₀ ls fs ((MarkupScript.commaSeparated (xs.map text)).toList ++ r) s)
    (hr : EndsText r) (hs : P s) :
    ∃ s₁, Scans s₀ (ls ++ commaLexemes (xs.map lexemes)) fs r s₁ := by
  induction xs generalizing ls s with
  | nil => exact ⟨s, by simpa [MarkupScript.commaSeparated, commaLexemes] using h⟩
  | cons x xs ih =>
    cases xs with
    | nil =>
      simp only [List.map_cons, List.map_nil, MarkupScript.commaSeparated,
        String.intercalate_singleton] at h
      exact hitem x List.mem_cons_self h hr hs
    | cons y xs =>
      simp only [List.map_cons, MarkupScript.commaSeparated, String.intercalate_cons_cons,
        String.toList_append, List.append_assoc] at h
      obtain ⟨s₁, h₁⟩ := hitem x List.mem_cons_self h (.mark (by rfl) _) hs
      obtain ⟨s₂, h₂⟩ := h₁.scriptMark .comma (by decide) (by decide)
        (.of_longest (by decide) (by decide) _) hfs
      obtain ⟨s₃, h₃⟩ := ih (fun z hz => hitem z (List.mem_cons_of_mem x hz)) h₂.space
        (hcomma _ h₂.latest)
      exact ⟨s₃, by simpa [commaLexemes] using h₃⟩

end Scanner.Scans

open Scanner

namespace Expr

/-! ### Expressions in their places -/

/-- A `<` behind the text of an expression compares, if the text starts at this place. -/
structure ComparesAfter (e : Expr) (s : Scanner) : Prop where
  level : Level.conditional < e.level
  text : e.endsInText = false
  constant : e.isWrittenConstant = true → s.latest? ≠ some (.symbol .tagEnd)
  object : ∀ properties span, e = .object properties span → s.OpensObject

/-- The lexemes of an expression are read from its text, wherever the text may start. -/
def IsScanned (e : Expr) : Prop :=
  ∀ ⦃indent : Nat⦄ ⦃s₀ s : Scanner⦄ ⦃ls : List Lexeme⦄ ⦃fs : Frames⦄ ⦃r : List Char⦄,
    Scans s₀ ls fs ((e.print indent).toList ++ r) s → fs.current.isTag = false → e.Separated r →
    e.Fits s → ∃ s₁, Scans s₀ (ls ++ e.lexemes) fs r s₁ ∧ (e.ComparesAfter s → s₁.Compares)

namespace IsScanned

variable {e : Expr} {indent : Nat} {s₀ s : Scanner} {ls : List Lexeme} {fs : Frames}
  {r : List Char}

/-- In parentheses, if they are needed. -/
theorem placed (h : e.IsScanned) {needed : Bool}
    (hs : Scans s₀ ls fs ((parenthesisedIf needed (e.print indent)).toList ++ r) s)
    (hfs : fs.current.isTag = false) (hr : needed = false → e.Separated r)
    (hfits : needed = false → e.Fits s) :
    ∃ s₁, Scans s₀ (ls ++ lexemesParenthesisedIf needed e.lexemes) fs r s₁ ∧
      ((needed = false → e.ComparesAfter s) → s₁.Compares) := by
  rw [toList_parenthesisedIf] at hs
  cases needed with
  | false =>
    obtain ⟨s₁, h₁, hc⟩ := h hs hfs (hr rfl) (hfits rfl)
    exact ⟨s₁, h₁, fun hc' => hc (hc' rfl)⟩
  | true =>
    simp only [if_true, List.cons_append, List.append_assoc] at hs
    obtain ⟨s₁, h₁⟩ := hs.openParen hfs
    obtain ⟨s₂, h₂, -⟩ := h h₁ rfl (.of_endsText (.mark (by rfl) _) e)
      (.of_latest h₁.latest rfl (.inr (by rw [h₁.frames]; rintro ⟨⟩)))
    obtain ⟨s₃, h₃⟩ := h₂.closeParen
    exact ⟨s₃, by simpa [lexemesParenthesisedIf] using h₃, fun _ => .of_latest h₃.latest rfl nofun⟩

theorem plain (h : e.IsScanned) (hs : Scans s₀ ls fs ((e.print indent).toList ++ r) s)
    (hfs : fs.current.isTag = false) (hr : EndsText r) (hfits : e.Fits s) :
    ∃ s₁, Scans s₀ (ls ++ e.lexemes) fs r s₁ := by
  obtain ⟨s₁, h₁, -⟩ := h hs hfs (.of_endsText hr e) hfits
  exact ⟨s₁, h₁⟩

/-! ### Names and literals -/

theorem string (value : String) (span : Span) : (Expr.string value span).IsScanned := by
  intro indent s₀ s ls fs r hs hfs hr _
  obtain ⟨s₁, h₁⟩ := hs.string
  exact ⟨s₁, h₁, fun hc => by cases hc.text⟩

/-- An expression that is one word. -/
theorem word (x : String) {k : Kind} (hx : isIdentifierText x = true) (hk : Kind.ofWord x = k)
    (htext : ∀ indent, e.print indent = x) (hlexemes : e.lexemes = [{ kind := k }])
    (hends : k.endsExpression = true)
    (hconstant : k.isConstant = true → e.isWrittenConstant = true) :
    e.IsScanned := by
  intro indent s₀ s ls fs r hs hfs hr _
  subst hk
  rw [htext] at hs
  obtain ⟨s₁, h₁, htail⟩ := hs.word hx (fun c hc => (hr c hc).1) hfs
  refine ⟨s₁, hlexemes ▸ h₁, fun hc => .of_latest h₁.latest hends fun hk => ?_⟩
  rw [htail]
  exact hc.constant (hconstant hk)

theorem boolean (value : Bool) (span : Span) : (Expr.boolean value span).IsScanned := by
  cases value
  · exact word "false" (by decide +kernel) (by decide) (fun _ => rfl) rfl rfl fun _ => rfl
  · exact word "true" (by decide +kernel) (by decide) (fun _ => rfl) rfl rfl fun _ => rfl

theorem null (span : Span) : (Expr.null span).IsScanned :=
  word "null" (by decide +kernel) (by decide) (fun _ => rfl) rfl rfl fun _ => rfl

theorem this_ (span : Span) : (Expr.this_ span).IsScanned :=
  word "this" (k := .keyword .this_) (by decide +kernel) (by decide) (fun _ => rfl) rfl rfl nofun

theorem identifier {x : String} {span : Span} (hx : IsIdentifier x) :
    (Expr.identifier x span).IsScanned :=
  word x hx.1 hx.2 (fun _ => rfl) (by rw [Expr.lexemes, Lexeme.word, hx.2]) rfl nofun

theorem number {value : Double} {span : Span} (hunsigned : value.isUnsigned = true) :
    (Expr.number value span).IsScanned := by
  cases hfinite : value.isFinite with
  | true =>
    intro indent s₀ s ls fs r hs hfs hr _
    obtain ⟨s₁, h₁, htail⟩ := hs.number hfinite hunsigned (hr.endsText (.inr rfl)) hfs
    refine ⟨s₁, ?_, fun hc => .of_latest h₁.latest rfl fun _ => ?_⟩
    · rwa [Expr.lexemes, numberLexeme, if_pos hfinite]
    · rw [htail]
      exact hc.constant hfinite
  | false =>
    refine word "Infinity" isIdentifier_infinity.1 isIdentifier_infinity.2
      (fun _ => Double.literal_eq_infinity hfinite hunsigned) ?_ rfl (by rintro ⟨⟩)
    rw [Expr.lexemes, numberLexeme, hfinite, Lexeme.word, isIdentifier_infinity.2]
    rfl

/-! ### Operators -/

/-- Parentheses that another rule asks for come on top of none. -/
theorem parenthesisedIf_inPlace {extra : Bool} {least : Nat} (h : extra = true → least ≤ e.level)
    (text : String) :
    parenthesisedIf extra (e.inPlace least text) =
      parenthesisedIf (extra || decide (e.level < least)) text := by
  cases extra with
  | false => rfl
  | true => simp [Expr.inPlace, parenthesisedIf, Nat.not_lt.mpr (h rfl)]

theorem lexemesParenthesisedIf_inPlace {extra : Bool} {least : Nat}
    (h : extra = true → least ≤ e.level) (ls : List Lexeme) :
    lexemesParenthesisedIf extra (e.lexemesInPlace least ls) =
      lexemesParenthesisedIf (extra || decide (e.level < least)) ls := by
  cases extra with
  | false => rfl
  | true => simp [Expr.lexemesInPlace, lexemesParenthesisedIf, Nat.not_lt.mpr (h rfl)]

/-- `&&` and `||` bind tighter than `??`. -/
theorem level_of_isLogical {op : BinaryOp} (h : (op == .nullish && e.isLogical) = true) :
    Level.binary op + 1 ≤ e.level := by
  simp only [Bool.and_eq_true, beq_iff_eq] at h
  obtain ⟨rfl, hlogical⟩ := h
  cases e with
  | binary left op right span =>
    cases op <;> first | exact absurd hlogical Bool.false_ne_true | (simp only [Expr.level]; decide)
  | _ => cases hlogical

/-- Behind an operand of a comparison, its mark does not open a tag. -/
theorem admits_operator {op : BinaryOp} {s : Scanner} (hs : Scans s₀ ls fs r s)
    (hfs : fs.current.isTag = false) (hls : ls ≠ [])
    (hrest : ∃ r', r = op.symbol.spelling.toList ++ ' ' :: r')
    (hcompares : op = .less ∨ op = .lessEqual → s.Compares) : s.Admits op.symbol := by
  refine ⟨fun h => absurd (hs.frames ▸ h) (by simp [hfs]), fun h => ?_⟩
  have hop : op = .less ∨ op = .lessEqual := by
    cases op <;> first | exact .inl rfl | exact .inr rfl | (rcases h with h | h <;> cases h)
  refine (hcompares hop).opensTag (hs.newline_eq_false hls) ?_
  obtain ⟨r', rfl⟩ := hrest
  rw [closingTagAhead, hs.rest]
  rcases hop with rfl | rfl <;> rfl

theorem append_lexemesParenthesisedIf_ne_nil (he : e.WellFormed) {needed : Bool} :
    ls ++ lexemesParenthesisedIf needed e.lexemes ≠ [] := by
  obtain ⟨l, rest, hl, -⟩ := e.startsAt he
  cases needed <;> simp [lexemesParenthesisedIf, hl]

/-- Lexemes start with a brace if those of their first part do. -/
theorem startsWithBrace_leftmost {ls : List Lexeme} {needed : Bool} (hn : needed = false)
    (h : startsWithBrace ls = true) (ms : List Lexeme) :
    startsWithBrace (lexemesParenthesisedIf needed ls ++ ms) = true := by
  subst hn
  cases ls with
  | nil => cases h
  | cons l ls => exact (startsWithBrace_cons l _).mpr ((startsWithBrace_cons l ls).mp h)

theorem isLess_iff {op : BinaryOp} : op.isLess = true ↔ op = .less ∨ op = .lessEqual := by
  cases op <;> simp [BinaryOp.isLess]

/-- The left operand of a comparison ends one, if the comparison is clear. -/
theorem comparesAfter_left {left right : Expr} {op : BinaryOp} {span : Span}
    (hfits : (Expr.binary left op right span).Fits s)
    (hclear : (Expr.binary left op right span).isClear = true)
    (hop : op = .less ∨ op = .lessEqual) (hlevel : Level.binary op ≤ left.level) :
    left.ComparesAfter s := by
  have hless := isLess_iff.mpr hop
  simp only [isClear, hless, Bool.not_true, Bool.false_or, Bool.and_eq_true, Bool.or_eq_true,
    decide_eq_true_eq, Bool.not_eq_true'] at hclear
  refine ⟨?_, hclear.1.1.resolve_left (Nat.not_lt.mpr hlevel), fun hc => ?_, ?_⟩
  · refine Nat.lt_of_lt_of_le ?_ hlevel
    rcases hop with rfl | rfl <;> decide
  · exact hfits.constant (by simp [opensComparison, hless, hc])
  · rintro ps span rfl
    refine hfits.object (Level.binary_lt_unary op) ?_
    have hlogical : (op == .nullish && (Expr.object ps span).isLogical) = false := Bool.and_false _
    rw [Expr.lexemes, hlogical, lexemesParenthesisedIf, if_neg Bool.false_ne_true]
    exact startsWithBrace_leftmost (decide_eq_false (Nat.not_lt.mpr hlevel)) rfl _

/-- The left operand may start where the operator may, if it needs no parentheses. -/
theorem fits_left {left right : Expr} {op : BinaryOp} {span : Span}
    (hfits : (Expr.binary left op right span).Fits s)
    (hn : (op == .nullish && left.isLogical || decide (left.level < Level.binary op)) = false) :
    left.Fits s := by
  have hplain : (op == .nullish && left.isLogical) = false ∧ Level.binary op ≤ left.level := by
    simpa using hn
  refine hfits.leftmost (Level.binary_lt_unary op) (fun hb => ?_) rfl (fun hc => ?_) fun hc => ?_
  · rw [Expr.lexemes, lexemesParenthesisedIf_inPlace
      fun h => Nat.le_of_succ_le (level_of_isLogical h)]
    exact startsWithBrace_leftmost hn hb _
  · simp only [isClear, hn, Bool.false_or, Bool.and_eq_true] at hc
    exact hc.1.2
  · simp [opensComparison, hplain, hc]

theorem binary {left right : Expr} {op : BinaryOp} {span : Span} (hwf : left.WellFormed)
    (hleft : left.IsScanned) (hright : right.IsScanned) :
    (Expr.binary left op right span).IsScanned := by
  intro indent s₀ s ls fs r hs hfs hr hfits
  have hhigh := Level.binary_lt_unary op
  have hr : EndsText r := hr.endsText (.inl (Nat.lt_trans hhigh (by decide)))
  have hlow : Level.conditional < Level.binary op := by
    have := op.precedence_bounds
    simp only [Level.conditional, Level.binary]
    omega
  simp only [Expr.lexemes, lexemesParenthesisedIf_inPlace
    fun h => Nat.le_of_succ_le (level_of_isLogical h),
    lexemesParenthesisedIf_inPlace level_of_isLogical]
  have hs' := hs
  simp only [Expr.print, String.toList_append, List.append_assoc,
    parenthesisedIf_inPlace fun h => Nat.le_of_succ_le (level_of_isLogical h),
    parenthesisedIf_inPlace level_of_isLogical] at hs'
  obtain ⟨s₁, h₁, hc₁⟩ := hleft.placed hs' hfs
    (fun _ => .of_endsText (.mark (by rfl) _) left) fun hn => fits_left hfits hn
  have hcompares (hop : op = .less ∨ op = .lessEqual) : s₁.Compares := by
    rcases hfits.clear with hclear | hframe
    · exact hc₁ fun hn => comparesAfter_left hfits hclear hop (by simp at hn; omega)
    · intro hblock
      rw [h₁.frames, ← hs.frames] at hblock
      exact absurd hblock hframe
  have hadmits := admits_operator h₁.space hfs (append_lexemesParenthesisedIf_ne_nil hwf) ⟨_, rfl⟩
    hcompares
  obtain ⟨s₂, h₂⟩ := h₁.space.mark op.symbol (l := .mark op.symbol) (by cases op <;> decide)
    (.space _ _) hadmits rfl (by rintro ⟨⟩) rfl
  have hoperand : (Kind.symbol op.symbol).expectsOperand = true := by cases op <;> rfl
  obtain ⟨s₃, h₃, hc₃⟩ := hright.placed h₂.space hfs (fun _ => .of_endsText hr right)
    fun hn => hfits.operand hs h₂.space hoperand fun hc => by
      simp only [isClear, hn, Bool.false_or, Bool.and_eq_true] at hc
      exact hc.2
  refine ⟨s₃, by simpa using h₃, fun hc => hc₃ fun hn => ⟨?_, ?_, fun _ => ?_, fun _ _ _ => ?_⟩⟩
  · simp at hn
    omega
  · have htext := hc.text
    simp only [Bool.or_eq_false_iff, decide_eq_false_iff_not, Nat.not_lt] at hn
    simpa [endsInText, Nat.lt_of_succ_le hn.2, hn.1] using htext
  · rw [h₂.space.latest]
    cases op <;> rintro ⟨⟩
  · exact .of_latest h₂.latest hoperand

/-- A unary operator is read apart from its operand. -/
theorem unaryOperator {op : UnaryOp} {text : String} {ms : List Lexeme}
    (hs : Scans s₀ ls fs ((unaryText op text).toList ++ r) s) (hfs : fs.current.isTag = false)
    (htext : StartsLike text.toList ms) :
    ∃ s₁, Scans s₀ (ls ++ [op.lexeme]) fs (text.toList ++ r) s₁ := by
  rcases unaryText_cases op text with hprint | ⟨hop, hhead, hprint⟩ <;>
    rw [hprint, List.append_assoc] at hs
  · cases op with
    | typeof_ =>
      obtain ⟨s₁, h₁⟩ := hs.keyword .typeof_ (not_isIdentifierPart_head (by rfl) _) hfs
      exact ⟨_, h₁.space⟩
    | not =>
      obtain ⟨s₁, h₁⟩ := hs.scriptMark .not (by decide) (by decide) (.space _ _) hfs
      exact ⟨_, h₁.space⟩
    | negate =>
      obtain ⟨s₁, h₁⟩ := hs.scriptMark .minus (by decide) (by decide) (.space _ _) hfs
      exact ⟨_, h₁.space⟩
    | plus =>
      obtain ⟨s₁, h₁⟩ := hs.scriptMark .plus (by decide) (by decide) (.space _ _) hfs
      exact ⟨_, h₁.space⟩
  · obtain ⟨c, cs, l, rest, hcs, -, hc, -⟩ := htext
    rw [hcs] at hs hhead ⊢
    have hends {m : Symbol} (hm : m ≠ .dot ∧ m ≠ .optionalChain ∧ m ≠ .slash)
        (hext : c ∉ m.extensions) : EndsBefore m (c :: cs ++ r) :=
      .of_extensions hm (by rintro d ⟨⟩; exact hext)
    cases op with
    | typeof_ => exact absurd rfl hop
    | not =>
      have hext : Symbol.not.extensions = ['=', '='] := by decide
      exact hs.scriptMark .not (by decide) (by decide)
        (hends (by decide) (by simp [hext, hc])) hfs
    | negate =>
      have hext : Symbol.minus.extensions = ['-', '='] := by decide
      have hne : c ≠ '-' := fun h => hhead (by rw [h]; rfl)
      exact hs.scriptMark .minus (by decide) (by decide)
        (hends (by decide) (by simp [hext, hc, hne])) hfs
    | plus =>
      have hext : Symbol.plus.extensions = ['+', '='] := by decide
      have hne : c ≠ '+' := fun h => hhead (by rw [h]; rfl)
      exact hs.scriptMark .plus (by decide) (by decide)
        (hends (by decide) (by simp [hext, hc, hne])) hfs

theorem unary {op : UnaryOp} {operand : Expr} {span : Span} (hwf : operand.WellFormed)
    (hoperand : operand.IsScanned) : (Expr.unary op operand span).IsScanned := by
  intro indent s₀ s ls fs r hs hfs hr hfits
  have hr : EndsText r := hr.endsText (.inl (show Level.unary < Level.call by decide))
  have hexpects : op.lexeme.kind.expectsOperand = true := by cases op <;> rfl
  have hs' := hs
  rw [Expr.print] at hs'
  obtain ⟨s₁, h₁⟩ := unaryOperator hs' hfs ((operand.startsLike indent hwf).inPlace _)
  obtain ⟨s₂, h₂, hc₂⟩ := hoperand.placed h₁ hfs (fun _ => .of_endsText hr operand)
    fun hn => hfits.operand hs h₁ hexpects fun hc => by simpa [isClear, hn] using hc
  refine ⟨s₂, by simpa [Expr.lexemes, Expr.lexemesInPlace] using h₂,
    fun hc => hc₂ fun hn => ⟨?_, ?_, fun _ => ?_, fun _ _ _ => ?_⟩⟩
  all_goals simp only [decide_eq_false_iff_not, Nat.not_lt] at hn
  · exact Nat.lt_of_lt_of_le (by decide) hn
  · simpa [endsInText, hn] using hc.text
  · rw [h₁.latest]
    cases op <;> rintro ⟨⟩
  · exact .of_latest h₁.latest hexpects

theorem call_le_level_of_isTarget (h : e.isTarget = true) : Level.call ≤ e.level := by
  cases e <;> first | exact absurd h Bool.false_ne_true | exact Nat.le_succ _ | exact Nat.le_refl _

/-- A variable or property ends an operand wherever it stands. -/
theorem comparesAfter_target (h : e.isTarget = true) (htext : e.endsInText = false) :
    e.ComparesAfter s where
  level := Nat.lt_of_lt_of_le (by decide) (call_le_level_of_isTarget h)
  text := htext
  constant hc := by
    cases e <;> first | exact absurd h Bool.false_ne_true | exact absurd hc Bool.false_ne_true
  object ps span he := by
    subst he
    cases h

/-- In brackets, a brace behind `++` or `--` is that of an object. -/
theorem braceFrame_updateOp {op : UpdateOp} (h : s.latest? = some (.symbol op.symbol))
    (hblock : s.frames.current ≠ .block) (htag : s.frames.current.isTag = false) :
    s.braceFrame = .braces := by
  have hframe : s.frames.current.isExpression = true := by
    cases hf : s.frames.current <;> simp_all [Frame.isTag, Frame.isExpression]
  cases op <;> simp [braceFrame, h, UpdateOp.symbol, Kind.expectsOperand, hframe]

theorem update {op : UpdateOp} {inFront : Bool} {operand : Expr} {span : Span}
    (htarget : operand.isTarget = true) (hwf : operand.WellFormed) (hoperand : operand.IsScanned) :
    (Expr.update op inFront operand span).IsScanned := by
  intro indent s₀ s ls fs r hs hfs hr hfits
  have hlevel := call_le_level_of_isTarget htarget
  have hs' := hs
  cases inFront with
  | true =>
    have hr : EndsText r := hr.endsText (.inl (show Level.unary < Level.call by decide))
    simp only [Expr.print, if_true, String.toList_append, List.append_assoc] at hs'
    obtain ⟨s₁, h₁⟩ := hs'.scriptMark op.symbol (by cases op <;> decide) (by cases op <;> decide)
      (.of_longest (by cases op <;> decide) (by cases op <;> decide) _) hfs
    have hclear : (Expr.update op true operand span).isClear = true ∨ s₁.frames.current ≠ .block := by
      rw [h₁.frames, ← hs.frames]
      exact hfits.clear
    simp only [isClear, Bool.not_true, Bool.false_or, Bool.and_eq_true] at hclear
    have hfits₁ : operand.Fits s₁ := by
      refine .of_tight hlevel (hclear.imp_left And.left) fun hb => ?_
      refine hclear.imp (fun hc => ?_) fun hframe => ?_
      · simpa [hb] using hc.2
      · exact braceFrame_updateOp h₁.latest hframe (h₁.frames ▸ hfs)
    obtain ⟨s₂, h₂, hc₂⟩ := hoperand.placed h₁ hfs (fun _ => .of_endsText hr _) fun _ => hfits₁
    refine ⟨s₂, by simpa [Expr.lexemes, Expr.lexemesInPlace] using h₂, fun hc => hc₂ fun hn => ?_⟩
    simp only [decide_eq_false_iff_not, Nat.not_lt] at hn
    exact comparesAfter_target htarget (by simpa [endsInText, hn] using hc.text)
  | false =>
    simp only [Expr.print, Bool.false_eq_true, if_false, String.toList_append,
      List.append_assoc] at hs'
    obtain ⟨s₁, h₁, -⟩ := hoperand.placed hs' hfs
      (fun _ => .of_endsText (by cases op <;> exact .mark (by rfl) _) _)
      fun hn => hfits.tight hlevel (fun hb => startsWithBrace_leftmost hn hb _) rfl fun hc => by
        simpa [isClear] using hc
    have hnewline := h₁.newline_eq_false (append_lexemesParenthesisedIf_ne_nil hwf)
    obtain ⟨s₂, h₂⟩ := h₁.mark op.symbol (l := { kind := .symbol op.symbol, sameLine := true })
      (by cases op <;> decide)
      (.of_longest (by cases op <;> decide) (by cases op <;> decide) _)
      (.of_not_isTag (h₁.frames ▸ hfs) (by cases op <;> decide)) rfl (fun _ => hnewline) rfl
    refine ⟨s₂, by simpa [Expr.lexemes, Expr.lexemesInPlace] using h₂, fun _ => ?_⟩
    exact .of_latest h₂.latest (by cases op <;> rfl) (by cases op <;> rintro ⟨⟩)

/-! ### Members and calls -/

/-- A word that is no keyword can end an expression. -/
theorem endsExpression_ofWord {x : String} (h : Keyword.all.any (·.spelling = x) = false) :
    (Kind.ofWord x).endsExpression = true := by
  have hfind : Keyword.all.find? (·.spelling = x) = none := by
    simpa [List.find?_eq_none] using h
  simp only [Kind.ofWord, hfind]
  repeat' split
  all_goals rfl

/-- A word behind a dot. -/
theorem property {m : Symbol} {x : String} (hm : m = .dot ∨ m = .optionalChain)
    (hx : isIdentifierText x = true) (hs : Scans s₀ ls fs (m.spelling.toList ++ (x.toList ++ r)) s)
    (hfs : fs.current.isTag = false) (hr : ∀ c ∈ r.head?, isIdentifierPart c = false) :
    ∃ s₁, Scans s₀ (ls ++ [.mark m] ++ [.word x]) fs r s₁ ∧
      (Keyword.all.any (·.spelling = x) = false → s₁.Compares) := by
  have hhead : ∀ d ∈ (x.toList ++ r).head?, isIdentifierStart d = true := by
    obtain ⟨c, cs, hxs, hc, -⟩ := exists_cons_of_isIdentifierText hx
    rw [hxs]
    rintro d ⟨⟩
    exact hc
  obtain ⟨s₁, h₁⟩ := hs.scriptMark m (by rcases hm with rfl | rfl <;> decide)
    (by rcases hm with rfl | rfl <;> decide) (.of_word hm hhead) hfs
  obtain ⟨s₂, h₂, htail⟩ := h₁.word hx hr hfs
  refine ⟨s₂, h₂, fun hword => .of_latest h₂.latest (endsExpression_ofWord hword) fun _ => ?_⟩
  have hlatest : s₂.tokens.tail.head?.map (·.kind) = some (.symbol m) := htail ▸ h₁.latest
  rw [hlatest]
  rcases hm with rfl | rfl <;> nofun

theorem memberLexemes_eq_append (object property : List Lexeme) (computed optional : Bool) :
    ∃ ms, memberLexemes object property computed optional = object ++ ms := by
  unfold memberLexemes
  split <;> simp

theorem member {base property : Expr} {computed optional : Bool} {span : Span}
    (hwf : (Expr.member base property computed optional span).WellFormed) (hbase : base.IsScanned)
    (hproperty : computed = true → property.IsScanned) :
    (Expr.member base property computed optional span).IsScanned := by
  intro indent s₀ s ls fs r hs hfs hr hfits
  have hnumber (hn : base.isNumber = true) : Level.call ≤ base.level := by
    cases base <;> first | exact absurd hn Bool.false_ne_true | exact Nat.le_succ _
  have htight (hn : (base.isNumber || decide (base.level < Level.call)) = false) :
      Level.call ≤ base.level ∧ base.isNumber = false := by
    simp only [Bool.or_eq_false_iff, decide_eq_false_iff_not, Nat.not_lt] at hn
    exact ⟨hn.2, hn.1⟩
  have hfits₀ (hn : (base.isNumber || decide (base.level < Level.call)) = false) : base.Fits s := by
    refine hfits.tight (htight hn).1 (fun hb => ?_) rfl fun hc => ?_
    · obtain ⟨ms, hms⟩ := memberLexemes_eq_append
        (lexemesParenthesisedIf (base.isNumber || decide (base.level < Level.call)) base.lexemes)
        (property.lexemesInPlace Level.any property.lexemes) computed optional
      rw [Expr.lexemes, lexemesParenthesisedIf_inPlace hnumber, hms]
      exact startsWithBrace_leftmost hn hb _
    · simpa [isClear, Nat.not_lt.mpr (htight hn).1] using hc
  simp only [Expr.print, parenthesisedIf_inPlace hnumber, Expr.inPlace_any] at hs
  simp only [Expr.lexemes, lexemesParenthesisedIf_inPlace hnumber, Expr.lexemesInPlace_any]
  cases computed with
  | true =>
    obtain rfl : optional = false := hwf.2.2
    simp only [memberText, String.toList_append, String.reduceToList,
    List.append_assoc, List.cons_append, List.nil_append] at hs
    obtain ⟨s₁, h₁, -⟩ := hbase.placed hs hfs
      (fun _ => .of_endsText (.mark (by rfl) _) _) hfits₀
    obtain ⟨s₂, h₂⟩ := h₁.openBracket hfs
    obtain ⟨s₃, h₃⟩ := (hproperty rfl).plain h₂ rfl (.mark (by rfl) _)
      (.of_latest h₂.latest rfl (.inr (by rw [h₂.frames]; rintro ⟨⟩)))
    obtain ⟨s₄, h₄⟩ := h₃.closeBracket
    exact ⟨s₄, by simpa [memberLexemes] using h₄, fun _ => .of_latest h₄.latest rfl (by rintro ⟨⟩)⟩
  | false =>
    have hword : property.isWord = true := hwf.2
    cases property with
    | identifier x xspan =>
      have hpart : ∀ c ∈ r.head?, isIdentifierPart c = false := fun c hc => (hr c hc).1
      cases optional with
      | true =>
        simp only [memberText, String.toList_append, String.reduceToList,
    List.append_assoc, List.cons_append, List.nil_append] at hs
        obtain ⟨s₁, h₁, -⟩ := hbase.placed hs hfs
          (fun _ => .of_endsText (.mark (by rfl) _) _) hfits₀
        obtain ⟨s₂, h₂, hc⟩ := IsScanned.property (.inr rfl) hword h₁ hfs hpart
        exact ⟨s₂, by simpa [memberLexemes, Expr.lexemes] using h₂,
          fun h => hc (by simpa [endsInText, isKeywordName] using h.text)⟩
      | false =>
        simp only [memberText, String.toList_append, String.reduceToList,
    List.append_assoc, List.cons_append, List.nil_append] at hs
        obtain ⟨s₁, h₁, -⟩ := hbase.placed hs hfs (fun hn => by
          rintro c ⟨⟩
          exact ⟨by decide +kernel, fun _ => htight hn⟩) hfits₀
        obtain ⟨s₂, h₂, hc⟩ := IsScanned.property (.inl rfl) hword h₁ hfs hpart
        exact ⟨s₂, by simpa [memberLexemes, Expr.lexemes] using h₂,
          fun h => hc (by simpa [endsInText, isKeywordName] using h.text)⟩
    | _ => cases hword

/-- Expressions with commas between them, in brackets. -/
theorem list {es : List Expr} (h : ∀ e ∈ es, e.IsScanned)
    (hs : Scans s₀ ls fs ((commaSeparated (printExprs indent es)).toList ++ r) s)
    (hfs : fs.current.isExpression = true) (hr : EndsText r) {k : Kind}
    (hlatest : s.latest? = some k) (hk : k.expectsOperand = true) :
    ∃ s₁, Scans s₀ (ls ++ commaLexemes (exprsLexemes es)) fs r s₁ := by
  have htag : fs.current.isTag = false := by
    cases hf : fs.current <;> simp_all [Frame.isExpression, Frame.isTag]
  have hblock : fs.current ≠ .block := by
    intro hb
    rw [hb] at hfs
    cases hfs
  rw [printExprs_eq] at hs
  rw [exprsLexemes_eq]
  refine hs.commaSeparated Expr.lexemes (fun s => ∃ k, s.latest? = some k ∧ k.expectsOperand = true)
    (fun s hs => ⟨_, hs, rfl⟩) ?_ htag hr ⟨k, hlatest, hk⟩
  rintro e he ls r s hs hr ⟨k, hlatest, hk⟩
  exact (h e he).plain hs htag hr (.of_latest hlatest hk (.inr (hs.frames ▸ hblock)))

theorem arguments {es : List Expr} (h : ∀ e ∈ es, e.IsScanned)
    (hs : Scans s₀ ls fs
      ('(' :: ((commaSeparated (printExprs indent es)).toList ++ ')' :: r)) s)
    (hfs : fs.current.isTag = false) :
    ∃ s₁, Scans s₀ (ls ++ .mark .leftParen :: commaLexemes (exprsLexemes es) ++
      [.mark .rightParen]) fs r s₁ := by
  obtain ⟨s₁, h₁⟩ := hs.openParen hfs
  obtain ⟨s₂, h₂⟩ := list h h₁ rfl (.mark (by rfl) _) h₁.latest rfl
  obtain ⟨s₃, h₃⟩ := h₂.closeParen
  exact ⟨s₃, by simpa using h₃⟩

theorem call {callee : Expr} {es : List Expr} {span : Span} (hcallee : callee.IsScanned)
    (hes : ∀ e ∈ es, e.IsScanned) : (Expr.call callee es span).IsScanned := by
  intro indent s₀ s ls fs r hs hfs hr hfits
  simp only [Expr.print, String.toList_append, String.reduceToList,
    List.append_assoc, List.cons_append, List.nil_append] at hs
  obtain ⟨s₁, h₁, -⟩ := hcallee.placed hs hfs
    (fun _ => .of_endsText (.mark (by rfl) _) _) fun hn => by
      refine hfits.tight (by simpa using hn) (fun hb => ?_) rfl fun hc => ?_
      · simp only [Expr.lexemes, List.append_assoc]
        exact startsWithBrace_leftmost hn hb _
      · simpa [isClear, hn] using hc
  obtain ⟨s₂, h₂⟩ := arguments hes h₁ hfs
  exact ⟨s₂, by simpa [Expr.lexemes, Expr.lexemesInPlace] using h₂,
    fun _ => .of_latest h₂.latest rfl (by rintro ⟨⟩)⟩

theorem new {callee : Expr} {es : List Expr} {span : Span} (hcallee : callee.IsScanned)
    (hes : ∀ e ∈ es, e.IsScanned) : (Expr.new callee es span).IsScanned := by
  intro indent s₀ s ls fs r hs hfs hr hfits
  have hcall (hn : callee.isCall = true) : Level.call ≤ callee.level := by
    cases callee <;> first | exact absurd hn Bool.false_ne_true | exact Nat.le_refl _
  have hs' := hs
  simp only [Expr.print, parenthesisedIf_inPlace hcall, String.toList_append,
    String.reduceToList, List.append_assoc, List.cons_append, List.nil_append] at hs'
  simp only [Expr.lexemes, lexemesParenthesisedIf_inPlace hcall]
  obtain ⟨s₁, h₁⟩ := hs'.keyword .new_ (not_isIdentifierPart_head (by rfl) _) hfs
  obtain ⟨s₂, h₂, -⟩ := hcallee.placed h₁.space hfs
    (fun _ => .of_endsText (.mark (by rfl) _) _)
    fun hn => hfits.operand hs h₁.space rfl fun hc => by
      simp only [isClear, hn, Bool.false_or] at hc
      exact hc
  obtain ⟨s₃, h₃⟩ := arguments hes h₂ hfs
  exact ⟨s₃, by simpa using h₃, fun _ => .of_latest h₃.latest rfl (by rintro ⟨⟩)⟩

/-! ### Brackets and braces -/

theorem array {es : List Expr} {span : Span} (h : ∀ e ∈ es, e.IsScanned) :
    (Expr.array es span).IsScanned := by
  intro indent s₀ s ls fs r hs hfs hr _
  simp only [Expr.print, String.toList_append, String.reduceToList,
    List.append_assoc, List.cons_append, List.nil_append] at hs
  obtain ⟨s₁, h₁⟩ := hs.openBracket hfs
  obtain ⟨s₂, h₂⟩ := list h h₁ rfl (.mark (by rfl) _) h₁.latest rfl
  obtain ⟨s₃, h₃⟩ := h₂.closeBracket
  exact ⟨s₃, by simpa [Expr.lexemes] using h₃, fun _ => .of_latest h₃.latest rfl (by rintro ⟨⟩)⟩

/-- A property is read from its text: its key alone, or its key, a colon and its value. -/
theorem keyed {p : Property} (hwf : p.WellFormed) (h : p.shorthand = false → p.value.IsScanned)
    (hclear : p.value.isClear = true ∨ fs.current ≠ .block)
    (hs : Scans s₀ ls fs ((p.print indent).toList ++ r) s) (hfs : fs.current.isTag = false)
    (hr : EndsText r) : ∃ s₁, Scans s₀ (ls ++ p.lexemes) fs r s₁ := by
  unfold Property.print at hs
  unfold Property.lexemes
  unfold Property.WellFormed at hwf
  cases hp : p.shorthand with
  | true =>
    simp only [hp, if_true] at hs hwf ⊢
    obtain ⟨s₁, h₁, -⟩ := hs.word hwf.1.1 (fun c hc => (hr c hc).1) hfs
    exact ⟨s₁, h₁⟩
  | false =>
    simp only [hp, Bool.false_eq_true, if_false, String.toList_append, String.reduceToList,
    List.append_assoc, List.cons_append, List.nil_append] at hs ⊢
    have hkey : ∃ s₁, Scans s₀ (ls ++ [keyLexeme p.key]) fs
        (": ".toList ++ ((p.value.print indent).toList ++ r)) s₁ := by
      unfold keyText at hs
      unfold keyLexeme
      split at hs
      · next hx =>
        rw [if_pos hx]
        obtain ⟨s₁, h₁, -⟩ := hs.word hx (not_isIdentifierPart_head (by rfl) _) hfs
        exact ⟨s₁, h₁⟩
      · next hx =>
        rw [if_neg hx]
        exact hs.string
    obtain ⟨s₁, h₁⟩ := hkey
    obtain ⟨s₂, h₂⟩ := h₁.scriptMark .colon (by decide) (by decide) (.space _ _) hfs
    obtain ⟨s₃, h₃⟩ := (h hp).plain h₂.space hfs hr
      (.of_latest h₂.space.latest rfl (h₂.space.frames ▸ hclear))
    exact ⟨s₃, by simpa using h₃⟩

theorem compares_of_objectClosed {s : Scanner} (h : s.latest? = some (.symbol .rightBrace))
    (hclosed : s.frames.current = .block → s.objectClosed = true) : s.Compares := by
  intro hblock
  unfold endsOperand
  cases hs : s.tokens with
  | nil => simp [latest?, hs] at h
  | cons token before =>
    have hk : token.kind = .symbol .rightBrace := by simpa [latest?, hs] using h
    simp [hk, hclosed hblock]

theorem object {ps : List Property} {span : Span} (hwf : ∀ p ∈ ps, p.WellFormed)
    (h : ∀ p ∈ ps, p.shorthand = false → p.value.IsScanned) :
    (Expr.object ps span).IsScanned := by
  intro indent s₀ s ls fs r hs hfs hr hfits
  have hbrace := s.braceFrame_cases
  have hclear (p : Property) (hp : p ∈ ps) :
      p.value.isClear = true ∨ Frames.current (s.braceFrame :: fs) ≠ .block := by
    refine (hfits.braces rfl).imp (fun hc => propertiesClear_iff.mp hc p hp) fun hframe => ?_
    rw [hframe]
    rintro ⟨⟩
  have hframe : (Frames.current (s.braceFrame :: fs)).isTag = false := by
    rcases hbrace with hb | hb <;> rw [hb] <;> rfl
  have hbody : ∃ s₁, Scans s₀ (ls ++ .mark .leftBrace :: commaLexemes (propertiesLexemes ps))
      (s.braceFrame :: fs) ('}' :: r) s₁ := by
    rw [Expr.print] at hs
    split at hs
    · next hempty =>
      obtain rfl := List.isEmpty_iff.mp hempty
      obtain ⟨s₁, h₁⟩ := hs.openBrace
      exact ⟨s₁, h₁⟩
    · simp only [printProperties_eq, String.toList_append, String.reduceToList, List.append_assoc,
        List.cons_append, List.nil_append] at hs
      obtain ⟨s₁, h₁⟩ := hs.openBrace
      obtain ⟨s₂, h₂⟩ := h₁.space.commaSeparated Property.lexemes (fun _ => True)
        (fun _ _ => trivial)
        (fun p hp _ _ _ hs hr _ => keyed (hwf p hp) (h p hp) (hclear p hp) hs hframe hr) hframe
        (.mark (by rfl) _) trivial
      exact ⟨_, by simpa [propertiesLexemes_eq] using h₂.space⟩
  obtain ⟨s₁, h₁⟩ := hbody
  obtain ⟨s₂, h₂, hclosed⟩ := h₁.closeBrace hbrace
  refine ⟨s₂, by simpa [Expr.lexemes] using h₂, fun hc => ?_⟩
  refine compares_of_objectClosed h₂.latest fun hblock => ?_
  have hobject := hc.object ps span rfl
  rw [hclosed, hobject (by rw [hs.frames, ← h₂.frames, hblock])]
  rfl

/-! ### Conditionals, assignments and arrow functions -/

theorem conditional {test consequent alternate : Expr} {span : Span} (htest : test.IsScanned)
    (hconsequent : consequent.IsScanned) (halternate : alternate.IsScanned) :
    (Expr.conditional test consequent alternate span).IsScanned := by
  intro indent s₀ s ls fs r hs hfs hr hfits
  have hr : EndsText r := hr.endsText (.inl (show Level.conditional < Level.call by decide))
  have hclear (hc : (Expr.conditional test consequent alternate span).isClear = true) :
      (decide (test.level < Level.conditional + 1) || test.isClear) = true ∧
        consequent.isClear = true ∧ alternate.isClear = true := by
    simpa [isClear, and_assoc] using hc
  have hs' := hs
  simp only [Expr.print, Expr.inPlace_assignment, String.toList_append, String.reduceToList,
    List.append_assoc, List.cons_append, List.nil_append] at hs'
  obtain ⟨s₁, h₁, -⟩ := htest.placed hs' hfs
    (fun _ => .of_endsText (.mark (by rfl) _) _) fun hn => by
      refine hfits.leftmost (show Level.conditional < Level.unary by decide) (fun hb => ?_) rfl
        (fun hc => ?_) fun hc => ?_
      · simp only [Expr.lexemes, List.append_assoc]
        exact startsWithBrace_leftmost hn hb _
      · have htest := (hclear hc).1
        rwa [hn, Bool.false_or] at htest
      · have hlevel : Level.conditional < test.level := Nat.lt_of_succ_le (by simpa using hn)
        simp [opensComparison, hlevel, hc]
  obtain ⟨s₂, h₂⟩ := h₁.space.scriptMark .question (by decide) (by decide) (.space _ _) hfs
  obtain ⟨s₃, h₃⟩ := hconsequent.plain h₂.space hfs (.mark (by rfl) _)
    (hfits.operand hs h₂.space rfl fun hc => (hclear hc).2.1)
  obtain ⟨s₄, h₄⟩ := h₃.space.scriptMark .colon (by decide) (by decide) (.space _ _) hfs
  obtain ⟨s₅, h₅⟩ := halternate.plain h₄.space hfs hr
    (hfits.operand hs h₄.space rfl fun hc => (hclear hc).2.2)
  refine ⟨s₅, ?_, fun hc => absurd hc.level (Nat.lt_irrefl _)⟩
  simp only [Expr.lexemes, Expr.lexemesInPlace_assignment]
  simpa [Expr.lexemesInPlace] using h₅

theorem assignment {target value : Expr} {op : AssignOp} {span : Span}
    (htarget : target.IsScanned) (hvalue : value.IsScanned) :
    (Expr.assignment target op value span).IsScanned := by
  intro indent s₀ s ls fs r hs hfs hr hfits
  have hr : EndsText r := hr.endsText (.inl (show Level.assignment < Level.call by decide))
  have hclear (hc : (Expr.assignment target op value span).isClear = true) :
      target.isClear = true ∧ value.isClear = true := by
    simpa [isClear] using hc
  have hs' := hs
  simp only [Expr.print, Expr.inPlace_assignment, String.toList_append, String.reduceToList,
    List.append_assoc, List.cons_append, List.nil_append] at hs'
  obtain ⟨s₁, h₁, -⟩ := htarget.placed hs' hfs
    (fun _ => .of_endsText (.mark (by rfl) _) _) fun hn =>
      hfits.tight (by simpa using hn) (fun hb => startsWithBrace_leftmost hn hb _) rfl
        fun hc => (hclear hc).1
  obtain ⟨s₂, h₂⟩ := h₁.space.scriptMark op.symbol (by cases op <;> decide)
    (by cases op <;> decide) (.space _ _) hfs
  obtain ⟨s₃, h₃⟩ := hvalue.plain h₂.space hfs hr
    (hfits.operand hs h₂.space (by cases op <;> rfl) fun hc => (hclear hc).2)
  refine ⟨s₃, ?_,
    fun hc => absurd hc.level (show ¬Level.conditional < Level.assignment by decide)⟩
  simp only [Expr.lexemes, Expr.lexemesInPlace_assignment]
  simpa [Expr.lexemesInPlace] using h₃

/-- Names in parentheses, of a function or an arrow function. -/
theorem parameters {params : List String} (hparams : ∀ x ∈ params, IsIdentifier x)
    (hs : Scans s₀ ls fs ('(' :: ((commaSeparated params).toList ++ ')' :: r)) s)
    (hfs : fs.current.isTag = false) :
    ∃ s₁, Scans s₀ (ls ++ paramLexemes params) fs r s₁ ∧
      s₁.latest? = some (.symbol .rightParen) := by
  obtain ⟨s₁, h₁⟩ := hs.openParen hfs
  rw [← List.map_id params] at h₁
  obtain ⟨s₂, h₂⟩ := h₁.commaSeparated (fun x => [.word x]) (fun _ => True)
    (fun _ _ => trivial) (fun x hx _ _ _ hs hr _ => by
      obtain ⟨s', h', -⟩ := hs.word (hparams x hx).1 (fun c hc => (hr c hc).1) rfl
      exact ⟨s', h'⟩) rfl (.mark (by rfl) _) trivial
  obtain ⟨s₃, h₃⟩ := h₂.closeParen
  exact ⟨s₃, by simpa [paramLexemes] using h₃, h₃.latest⟩

/-- An expression in parentheses if it starts with a brace. -/
theorem guarded (h : e.IsScanned) (hwf : e.WellFormed)
    (hs : Scans s₀ ls fs ((guardBrace (e.print indent)).toList ++ r) s)
    (hfs : fs.current.isTag = false) (hr : EndsText r)
    (hclear : (startsWithBrace e.lexemes || e.isClear) = true ∨ s.frames.current ≠ .block)
    (hconstant : startsWithBrace e.lexemes = false → e.opensComparison = true →
      s.latest? ≠ some (.symbol .tagEnd)) :
    ∃ s₁, Scans s₀ (ls ++ guardLexemes e.lexemes) fs r s₁ := by
  have hbrace := (e.startsLike indent hwf).startsWithChar
  rw [guardBrace, hbrace] at hs
  obtain ⟨s₁, h₁, -⟩ := h.placed hs hfs (fun _ => .of_endsText hr e) fun hn => by
    have hno (hb : startsWithBrace e.lexemes = true) : False := by
      rw [hn] at hb
      cases hb
    rw [hn, Bool.false_or] at hclear
    exact ⟨fun _ hb => (hno hb).elim, hclear, fun hb => (hno hb).elim, hconstant hn⟩
  exact ⟨s₁, h₁⟩

theorem arrowExpression {params : List String} {value : Expr} {span : Span}
    (hparams : ∀ x ∈ params, IsIdentifier x) (hwf : value.WellFormed) (h : value.IsScanned) :
    (Expr.arrow params (.expression value) span).IsScanned := by
  intro indent s₀ s ls fs r hs hfs hr hfits
  have hr : EndsText r := hr.endsText (.inl (show Level.assignment < Level.call by decide))
  have hs' := hs
  simp only [Expr.print, ArrowBody.print, Expr.inPlace_assignment, String.toList_append,
    String.reduceToList, List.append_assoc, List.cons_append, List.nil_append] at hs'
  obtain ⟨s₁, h₁, -⟩ := parameters hparams hs' hfs
  obtain ⟨s₂, h₂⟩ := h₁.space.scriptMark .arrow (by decide) (by decide) (.space _ _) hfs
  have hclear : (startsWithBrace value.lexemes || value.isClear) = true ∨ fs.current ≠ .block :=
    hfits.clear.imp id fun hframe => hs.frames ▸ hframe
  obtain ⟨s₃, h₃⟩ := h.guarded hwf h₂.space hfs hr (h₂.space.frames ▸ hclear)
    fun _ _ => by rw [h₂.space.latest]; rintro ⟨⟩
  exact ⟨s₃, by simpa [Expr.lexemes, ArrowBody.lexemes] using h₃,
    fun hc => absurd hc.level (show ¬Level.conditional < Level.assignment by decide)⟩

end IsScanned

end Expr

end MarkupScript
