import MarkupScript.Proofs.Print.Expressions

/-!
# Reading printed statements

The tokens of a printed statement are its lexemes, and so are those of lines of statements. Every
line starts where a `<` opens a tag and a brace opens a block: at the beginning of the source, or on
a new line behind a semicolon, a brace or a tag.
-/

namespace MarkupScript

open Scanner

/-! ### Texts of lists -/

/-- The text of a declared variable. -/
def Declarator.print (indent : Nat) (d : Declarator) : String :=
  match d.init with
  | none => d.name
  | some e => d.name ++ " = " ++ e.print indent

theorem printDeclarators_eq (indent : Nat) (ds : List Declarator) :
    printDeclarators indent ds = ds.map (Declarator.print indent) := by
  induction ds with
  | nil => rfl
  | cons d ds ih =>
    obtain ⟨name, _ | init⟩ := d <;> simp [printDeclarators, Declarator.print, ih]

/-- The text of an attribute. -/
def Attribute.print (indent : Nat) : Attribute → String
  | .bare name => name
  | .text name value => name ++ "=" ++ Text.quote value
  | .braced name value => name ++ "=\x7b" ++ value.print indent ++ "\x7d"

theorem printAttributes_cons (indent : Nat) (a : Attribute) (as : List Attribute) :
    printAttributes indent (a :: as) = " " ++ a.print indent ++ printAttributes indent as := by
  cases a <;> simp [printAttributes, Attribute.print, String.append_assoc]

/-- Whether a statement is a tag. -/
def Stmt.isTag : Stmt → Bool
  | .elementStart _ _ _ | .elementEnd _ _ | .element _ _ _ => true
  | _ => false

/-- The lexemes of a statement are read from its text, between statements. -/
def Stmt.IsScanned (st : Stmt) : Prop :=
  ∀ ⦃indent : Nat⦄ ⦃s₀ s : Scanner⦄ ⦃ls : List Lexeme⦄ ⦃fs : Frames⦄ ⦃r : List Char⦄,
    Scans s₀ ls fs ((st.print indent).toList ++ r) s → fs.current = .block →
    s.braceFrame = .block → (st.isTag = true → s.newline = true ∨ s.tokens = []) →
    (st.opensComparison = true → s.latest? ≠ some (.symbol .tagEnd)) →
    ∃ s₁, Scans s₀ (ls ++ st.lexemes) fs r s₁ ∧ s₁.braceFrame = .block

theorem Stmt.lexemes_ne_nil (st : Stmt) : st.lexemes ≠ [] := by
  cases st with
  | return_ value => cases value <;> simp [Stmt.lexemes]
  | import_ defaultName specifiers source =>
    simp only [Stmt.lexemes, importLexemes]
    split <;> simp
  | decorator d =>
    obtain ⟨name, es, span⟩ := d
    simp [Stmt.lexemes, Decorator.lexemes]
  | _ => simp [Stmt.lexemes]

/-- Behind a statement, the latest token is its last one. -/
theorem latest?_of_scans {st : Stmt} {s₀ s : Scanner} {ls : List Lexeme} {fs : Frames}
    {r : List Char} (h : Scans s₀ (ls ++ st.lexemes) fs r s) :
    s.latest? = some (.symbol .tagEnd) ↔ st.endsWithTag = true := by
  have hlast := List.dropLast_concat_getLast st.lexemes_ne_nil
  rw [← hlast, ← List.append_assoc] at h
  rw [h.latest, Stmt.endsWithTag, List.getLast?_eq_some_getLast st.lexemes_ne_nil]
  simp

namespace Stmt.IsScanned

variable {st : Stmt} {body : List Stmt} {indent : Nat} {s₀ s : Scanner} {ls : List Lexeme}
  {fs : Frames} {r : List Char}

/-! ### Lines -/

theorem toList_indentation (indent : Nat) :
    (indentation indent).toList = List.replicate (4 * indent) ' ' := by
  simp [indentation]

theorem toList_lineBreak (indent : Nat) :
    (lineBreak indent).toList = '\n' :: List.replicate (4 * indent) ' ' := by
  simp [lineBreak, toList_indentation]

/-- Statements on lines of their own. -/
theorem lines (h : ∀ st ∈ body, st.IsScanned) (hbehind : comparesBehindTag body = false)
    (hs : Scans s [] fs ((printLines indent body).toList ++ r) s) (hblock : fs.current = .block)
    (hbrace : s.braceFrame = .block) (hline : s.newline = true ∨ s.tokens = [])
    (hfirst : ∀ st ∈ body.head?, st.opensComparison = true → s.latest? ≠ some (.symbol .tagEnd)) :
    ∃ s₁, Moves s (onLine s.newline (stmtsLexemes body)) fs r s₁ := by
  induction body generalizing s with
  | nil => exact ⟨s, (by simpa [printLines] using hs : Scans s [] fs r s).moves⟩
  | cons st body ih =>
    simp only [printLines, String.toList_append, toList_indentation, String.reduceToList,
      List.append_assoc, List.cons_append, List.nil_append] at hs
    obtain ⟨s₁, h₁, hbrace₁⟩ := h st List.mem_cons_self hs.spaces hblock hbrace (fun _ => hline)
      (hfirst st rfl)
    have hnext : comparesBehindTag body = false ∧ ∀ next ∈ body.head?,
        next.opensComparison = true → s₁.latest? ≠ some (.symbol .tagEnd) := by
      cases body with
      | nil => exact ⟨rfl, nofun⟩
      | cons next rest =>
        simp only [comparesBehindTag, Bool.or_eq_false_iff, Bool.and_eq_false_iff] at hbehind
        refine ⟨hbehind.2, ?_⟩
        rintro _ ⟨⟩ hopens htag
        rw [latest?_of_scans h₁] at htag
        simp [htag, hopens] at hbehind
    obtain ⟨s₂, h₂⟩ := ih (fun st hst => h st (List.mem_cons_of_mem _ hst)) hnext.1 h₁.afterLine
      hbrace₁ (.inl rfl) hnext.2
    rw [stmtsLexemes, onLine_append _ st.lexemes_ne_nil]
    exact ⟨s₂, h₁.moves.trans (h₁.moves_line.trans h₂)⟩

/-- Statements in braces. -/
theorem inBraces (h : ∀ st ∈ body, st.IsScanned) (hbehind : comparesBehindTag body = false)
    (hs : Scans s₀ ls fs ((blockText indent (printLines (indent + 1) body)).toList ++ r) s)
    (hbrace : s.braceFrame = .block) :
    ∃ s₁, Scans s₀ (ls ++ .mark .leftBrace :: (stmtsLexemes body ++ [.mark .rightBrace])) fs r s₁ ∧
      s₁.braceFrame = .block := by
  cases body with
  | nil =>
    have hs : Scans s₀ ls fs ('{' :: '}' :: r) s := by simpa [blockText, printLines] using hs
    obtain ⟨s₁, h₁⟩ := hs.openBrace
    obtain ⟨s₂, h₂, -⟩ := h₁.closeBrace s.braceFrame_cases
    exact ⟨s₂, by simpa [stmtsLexemes] using h₂, braceFrame_eq_block h₂.latest (by decide)⟩
  | cons st body =>
    have hlines : (printLines (indent + 1) (st :: body)).isEmpty = false := by
      rw [String.isEmpty_eq_false_iff]
      intro h
      have := congrArg String.toList h
      simp [printLines] at this
    rw [blockText, hlines] at hs
    simp only [Bool.false_eq_true, if_false, String.toList_append, toList_indentation,
      String.reduceToList, List.append_assoc, List.cons_append, List.nil_append] at hs
    obtain ⟨s₁, h₁⟩ := hs.openBrace
    rw [hbrace] at h₁
    have hlatest : s₁.latest? ≠ some (.symbol .tagEnd) := by
      rw [h₁.latest]
      rintro ⟨⟩
    obtain ⟨s₂, h₂⟩ := lines h hbehind h₁.afterLine rfl
      (braceFrame_eq_block h₁.latest (by decide)) (.inl rfl) fun _ _ _ => hlatest
    obtain ⟨s₃, h₃, -⟩ := (Scans.start h₂.rest h₂.frames).spaces.closeBrace (.inl rfl)
    have hmoves := h₁.moves_line.trans (h₂.of_onLine.trans h₃.moves.of_onLine)
    exact ⟨s₃, by simpa using h₁.append (by simp) hmoves (h₃.newline_eq_false (by simp)),
      braceFrame_eq_block h₃.latest (by decide)⟩

/-- What stands on the next line. -/
theorem nextLine {ms : List Lexeme} {P : Scanner → Prop} {r' : List Char} (hls : ls ≠ [])
    (hms : ms ≠ []) (hs : Scans s₀ ls fs ((lineBreak indent).toList ++ r) s)
    (h : ∀ s₁ s₂, Scans s₁ [] fs r s₂ → s₂.newline = true → s₂.latest? = s.latest? →
      s₂.braceFrame = s.braceFrame → ∃ s₃, Scans s₁ ms fs r' s₃ ∧ P s₃) :
    ∃ s₃, Scans s₀ (ls ++ ms) fs r' s₃ ∧ P s₃ := by
  rw [toList_lineBreak, List.cons_append] at hs
  obtain ⟨s₃, h₃, hp⟩ := h _ _ hs.afterLine.spaces rfl rfl rfl
  exact ⟨s₃, hs.line hls h₃ hms, hp⟩

/-- The statement inside `if`, `while` or `for`. -/
theorem clause (h : st.IsScanned) (hls : ls ≠ [])
    (hs : Scans s₀ ls fs
      ((st.clauseLead indent).toList ++ ((st.print (st.clauseIndent indent)).toList ++ r)) s)
    (hblock : fs.current = .block)
    (hlatest : s.latest? = some (.symbol .rightParen) ∨ s.latest? = some (.keyword .else_)) :
    ∃ s₁, Scans s₀ (ls ++ st.lexemes) fs r s₁ ∧ s₁.braceFrame = .block := by
  have hbrace : s.braceFrame = .block := by
    rcases hlatest with hk | hk <;> exact braceFrame_eq_block hk (by decide)
  have htag : s.latest? ≠ some (.symbol .tagEnd) := by
    rcases hlatest with hk | hk <;> rw [hk] <;> rintro ⟨⟩
  unfold clauseLead at hs
  split at hs
  · next hst =>
    refine h (s := s.afterSpaces 1 _) hs.space hblock hbrace (fun hline => ?_) fun _ => htag
    cases st <;> first | exact absurd hst Bool.false_ne_true | exact absurd hline Bool.false_ne_true
  · refine nextLine hls st.lexemes_ne_nil hs fun s₁ s₂ hs₂ hline hlatest₂ hbrace₂ => ?_
    simpa using h hs₂ hblock (hbrace₂.trans hbrace) (fun _ => .inl hline) fun _ => hlatest₂ ▸ htag

/-! ### Simple statements -/

/-- A semicolon ends a statement. -/
theorem semicolon (hs : Scans s₀ ls fs (';' :: r) s) (hfs : fs.current.isTag = false) :
    ∃ s₁, Scans s₀ (ls ++ [.mark .semicolon]) fs r s₁ ∧ s₁.braceFrame = .block := by
  obtain ⟨s₁, h₁⟩ := hs.scriptMark .semicolon (by decide) (by decide)
    (.of_longest (by decide) (by decide) _) hfs
  exact ⟨s₁, h₁, braceFrame_eq_block h₁.latest (by decide)⟩

theorem isTag_eq_false (h : fs.current = .block) : fs.current.isTag = false := by rw [h]; rfl

theorem expression {value : Expr} (hwf : value.WellFormed)
    (hclear : (Stmt.expression value).isClear = true) (h : value.IsScanned) :
    (Stmt.expression value).IsScanned := by
  intro indent s₀ s ls fs r hs hblock hbrace _ hconstant
  have hfs := isTag_eq_false hblock
  simp only [Stmt.print, Expr.inPlace_any, String.toList_append, String.reduceToList,
    List.append_assoc, List.cons_append, List.nil_append] at hs
  obtain ⟨s₁, h₁⟩ := h.guarded hwf hs hfs (.mark (by rfl) _) (.inl hclear)
    fun hb hc => hconstant (by simp [Stmt.opensComparison, hb, hc])
  obtain ⟨s₂, h₂, hbrace₂⟩ := semicolon h₁ hfs
  exact ⟨s₂, by simpa [Stmt.lexemes] using h₂, hbrace₂⟩

/-- A word alone on a line, with a semicolon. -/
theorem keywordAlone {k : Keyword} (htext : ∀ indent, st.print indent = k.spelling ++ ";")
    (hlexemes : st.lexemes = [.keyword k, .mark .semicolon]) : st.IsScanned := by
  intro indent s₀ s ls fs r hs hblock hbrace _ _
  have hfs := isTag_eq_false hblock
  simp only [htext, String.toList_append, String.reduceToList, List.append_assoc, List.cons_append,
    List.nil_append] at hs
  obtain ⟨s₁, h₁⟩ := hs.keyword k (not_isIdentifierPart_head (by rfl) _) hfs
  obtain ⟨s₂, h₂, hbrace₂⟩ := semicolon h₁ hfs
  exact ⟨s₂, by simpa [hlexemes] using h₂, hbrace₂⟩

theorem empty : Stmt.empty.IsScanned := by
  intro indent s₀ s ls fs r hs hblock hbrace _ _
  simp only [Stmt.print, String.reduceToList, List.cons_append, List.nil_append] at hs
  exact semicolon hs (isTag_eq_false hblock)

theorem return_ {value : Expr} (hclear : value.isClear = true) (h : value.IsScanned) :
    (Stmt.return_ (some value)).IsScanned := by
  intro indent s₀ s ls fs r hs hblock hbrace _ _
  have hfs := isTag_eq_false hblock
  simp only [Stmt.print, Expr.inPlace_any, String.toList_append, String.reduceToList,
    List.append_assoc, List.cons_append, List.nil_append] at hs
  obtain ⟨s₁, h₁⟩ := hs.keyword .return_ (not_isIdentifierPart_head (by rfl) _) hfs
  have hline := h₁.space.newline_eq_false (by simp)
  -- The value is on the line of the keyword, or else it would not belong to it.
  obtain ⟨s₂, h₂⟩ := h.plain (.start h₁.space.rest h₁.space.frames) hfs
    (.mark (by rfl) _) (.of_latest h₁.latest rfl (.inl hclear))
  have h₂ := h₁.space.append (by simp) (h₂.moves_onSameLine hline) (by rw [h₂.newline, hline]; rfl)
  obtain ⟨s₃, h₃, hbrace₃⟩ := semicolon h₂ hfs
  exact ⟨s₃, by simpa [Stmt.lexemes] using h₃, hbrace₃⟩

/-- A declared variable is read from its text. -/
theorem declarator {d : Declarator} (hwf : d.WellFormed) (h : ∀ e ∈ d.init, e.IsScanned)
    (hclear : ∀ e ∈ d.init, e.isClear = true ∨ fs.current ≠ .block)
    (hs : Scans s₀ ls fs ((d.print indent).toList ++ r) s) (hfs : fs.current.isTag = false)
    (hr : EndsText r) : ∃ s₁, Scans s₀ (ls ++ d.lexemes) fs r s₁ := by
  obtain ⟨name, init⟩ := d
  cases init with
  | none =>
    obtain ⟨s₁, h₁, -⟩ := Scans.word hs hwf.1.1 (fun c hc => (hr c hc).1) hfs
    exact ⟨s₁, h₁⟩
  | some e =>
    simp only [Declarator.print, String.toList_append, String.reduceToList,
    List.append_assoc, List.cons_append, List.nil_append] at hs
    obtain ⟨s₁, h₁, -⟩ := hs.word hwf.1.1 (not_isIdentifierPart_head (by rfl) _) hfs
    obtain ⟨s₂, h₂⟩ := h₁.space.scriptMark .assign (by decide) (by decide) (.space _ _) hfs
    obtain ⟨s₃, h₃⟩ := (h e rfl).plain h₂.space hfs hr
      (.of_latest h₂.space.latest rfl (h₂.space.frames ▸ hclear e rfl))
    exact ⟨s₃, by simpa [Declarator.lexemes] using h₃⟩

/-- The part of a declaration in front of the semicolon. -/
theorem declaredVariables {kind : VariableKind} {ds : List Declarator}
    (hwf : ∀ d ∈ ds, d.WellFormed)
    (h : ∀ d ∈ ds, ∀ e ∈ d.init, e.IsScanned)
    (hclear : ∀ d ∈ ds, ∀ e ∈ d.init, e.isClear = true ∨ fs.current ≠ .block)
    (hs : Scans s₀ ls fs (kind.keyword.spelling.toList ++
      ' ' :: ((commaSeparated (printDeclarators indent ds)).toList ++ r)) s)
    (hfs : fs.current.isTag = false) (hr : EndsText r) :
    ∃ s₁, Scans s₀ (ls ++ .keyword kind.keyword :: commaLexemes (declaratorsLexemes ds)) fs r
      s₁ := by
  rw [printDeclarators_eq] at hs
  obtain ⟨s₁, h₁⟩ := hs.keyword kind.keyword (not_isIdentifierPart_head (by rfl) _) hfs
  obtain ⟨s₂, h₂⟩ := h₁.space.commaSeparated Declarator.lexemes (fun _ => True)
    (fun _ _ => trivial)
    (fun d hd _ _ _ hs hr _ => declarator (hwf d hd) (h d hd) (hclear d hd) hs hfs hr) hfs hr
    trivial
  exact ⟨s₂, by simpa [declaratorsLexemes_eq] using h₂⟩

theorem declaration {kind : VariableKind} {ds : List Declarator} (hwf : ∀ d ∈ ds, d.WellFormed)
    (hclear : (Stmt.declaration kind ds).isClear = true)
    (h : ∀ d ∈ ds, ∀ e ∈ d.init, e.IsScanned) : (Stmt.declaration kind ds).IsScanned := by
  intro indent s₀ s ls fs r hs hblock hbrace _ _
  have hfs := isTag_eq_false hblock
  simp only [Stmt.print, String.toList_append, String.reduceToList,
    List.append_assoc, List.cons_append, List.nil_append] at hs
  simp only [Stmt.isClear, List.all_eq_true, Option.all_eq_true] at hclear
  obtain ⟨s₁, h₁⟩ := declaredVariables hwf h (fun d hd e he => .inl (hclear d hd e he)) hs hfs
    (.mark (by rfl) _)
  obtain ⟨s₂, h₂, hbrace₂⟩ := semicolon h₁ hfs
  exact ⟨s₂, by simpa [Stmt.lexemes] using h₂, hbrace₂⟩

/-! ### Statements with bodies -/

theorem block (hbehind : comparesBehindTag body = false) (h : ∀ st ∈ body, st.IsScanned) :
    (Stmt.block body).IsScanned := by
  intro indent s₀ s ls fs r hs hblock hbrace _ _
  obtain ⟨s₁, h₁, hbrace₁⟩ := inBraces h hbehind hs hbrace
  exact ⟨s₁, by simpa [Stmt.lexemes] using h₁, hbrace₁⟩

theorem function {name : String} {params : List String} (hname : IsIdentifier name)
    (hparams : ∀ x ∈ params, IsIdentifier x) (hbehind : comparesBehindTag body = false)
    (h : ∀ st ∈ body, st.IsScanned) : (Stmt.function name params body none).IsScanned := by
  intro indent s₀ s ls fs r hs hblock hbrace _ _
  have hfs := isTag_eq_false hblock
  simp only [Stmt.print, printDecorator?, String.toList_append, String.reduceToList,
    List.append_assoc, List.cons_append, List.nil_append] at hs
  obtain ⟨s₁, h₁⟩ := hs.keyword .function_ (not_isIdentifierPart_head (by rfl) _) hfs
  obtain ⟨s₂, h₂, -⟩ := h₁.space.word hname.1 (not_isIdentifierPart_head (by rfl) _) hfs
  obtain ⟨s₃, h₃, hlatest⟩ := Expr.IsScanned.parameters hparams h₂ hfs
  obtain ⟨s₄, h₄, hbrace₄⟩ := inBraces h hbehind h₃.space (braceFrame_eq_block hlatest (by decide))
  exact ⟨s₄, by simpa [Stmt.lexemes, decoratorLexemes?] using h₄, hbrace₄⟩

/-- The head of `if` and `while`. -/
theorem test {k : Keyword} {test : Expr} (h : test.IsScanned)
    (hs : Scans s₀ ls fs
      (k.spelling.toList ++ ' ' :: '(' :: ((test.print indent).toList ++ ')' :: r)) s)
    (hfs : fs.current.isTag = false) :
    ∃ s₁, Scans s₀ (ls ++ .keyword k :: .mark .leftParen :: (test.lexemes ++ [.mark .rightParen]))
      fs r s₁ ∧ s₁.latest? = some (.symbol .rightParen) := by
  obtain ⟨s₁, h₁⟩ := hs.keyword k (not_isIdentifierPart_head (by rfl) _) hfs
  obtain ⟨s₂, h₂⟩ := h₁.space.openParen hfs
  obtain ⟨s₃, h₃⟩ := h.plain h₂ rfl (.mark (by rfl) _)
    (.of_latest h₂.latest rfl (.inr (by rw [h₂.frames]; rintro ⟨⟩)))
  obtain ⟨s₄, h₄⟩ := h₃.closeParen
  exact ⟨s₄, by simpa using h₄, h₄.latest⟩

theorem while_ {test : Expr} (htest : test.IsScanned) (h : st.IsScanned) :
    (Stmt.while_ test st).IsScanned := by
  intro indent s₀ s ls fs r hs hblock hbrace _ _
  simp only [Stmt.print, Expr.inPlace_any, String.toList_append, String.reduceToList,
    List.append_assoc, List.cons_append, List.nil_append] at hs
  obtain ⟨s₁, h₁, hlatest⟩ := Stmt.IsScanned.test (k := .while_) htest hs (isTag_eq_false hblock)
  obtain ⟨s₂, h₂, hbrace₂⟩ := h.clause (by simp) h₁ hblock (.inl hlatest)
  exact ⟨s₂, by simpa [Stmt.lexemes] using h₂, hbrace₂⟩

/-- The part of an `if` from the word `else` on. -/
theorem else_ {alternate : Option Stmt} {lead : String} (hls : ls ≠ [])
    (h : ∀ st ∈ alternate, st.IsScanned)
    (hlead : lead = " " ∨ lead = lineBreak indent)
    (hs : Scans s₀ ls fs ((printElse indent lead alternate).toList ++ r) s)
    (hblock : fs.current = .block) (hbrace : s.braceFrame = .block) :
    ∃ s₁, Scans s₀ (ls ++ elseLexemes alternate) fs r s₁ ∧ s₁.braceFrame = .block := by
  have hfs := isTag_eq_false hblock
  cases alternate with
  | none => exact ⟨s, by simpa [elseLexemes, printElse] using hs, hbrace⟩
  | some st =>
    simp only [printElse, String.toList_append, String.reduceToList, List.append_assoc] at hs
    have hword : ∃ s₁, Scans s₀ (ls ++ [.keyword .else_]) fs
        ((if st.isIf then " " else st.clauseLead indent).toList ++
          ((st.print (if st.isIf then indent else st.clauseIndent indent)).toList ++ r)) s₁ := by
      have hend : ∀ c ∈ ((if st.isIf then " " else st.clauseLead indent).toList ++
          ((st.print (if st.isIf then indent else st.clauseIndent indent)).toList ++ r)).head?,
          isIdentifierPart c = false := by
        unfold clauseLead
        split
        · rintro c ⟨⟩
          decide +kernel
        · split
          · rintro c ⟨⟩
            decide +kernel
          · rw [toList_lineBreak]
            rintro c ⟨⟩
            decide +kernel
      rcases hlead with rfl | rfl
      · exact Scans.keyword .else_ hs.space hend hfs
      · obtain ⟨s₁, h₁, -⟩ := nextLine (P := fun _ => True) hls (List.cons_ne_nil _ _) hs
          fun s₁ s₂ hs₂ _ _ _ => by
            obtain ⟨s₃, h₃⟩ := hs₂.keyword .else_ hend hfs
            exact ⟨s₃, h₃, trivial⟩
        exact ⟨s₁, h₁⟩
    obtain ⟨s₁, h₁⟩ := hword
    have hbrace₁ := braceFrame_eq_block h₁.latest (by decide)
    cases hif : st.isIf with
    | true =>
      simp only [hif, if_true, String.reduceToList, List.cons_append, List.nil_append] at h₁
      obtain ⟨s₂, h₂, hbrace₂⟩ := h st rfl h₁.space hblock hbrace₁ (fun htag => by
        cases st <;>
          first | exact absurd hif Bool.false_ne_true | exact absurd htag Bool.false_ne_true)
        fun _ => by rw [h₁.space.latest]; rintro ⟨⟩
      exact ⟨s₂, by simpa [elseLexemes] using h₂, hbrace₂⟩
    | false =>
      simp only [hif, Bool.false_eq_true, if_false] at h₁
      obtain ⟨s₂, h₂, hbrace₂⟩ := (h st rfl).clause (by simp) h₁ hblock (.inr h₁.latest)
      exact ⟨s₂, by simpa [elseLexemes] using h₂, hbrace₂⟩

theorem if_ {test : Expr} {alternate : Option Stmt} (htest : test.IsScanned) (h : st.IsScanned)
    (halternate : ∀ st ∈ alternate, st.IsScanned) : (Stmt.if_ test st alternate).IsScanned := by
  intro indent s₀ s ls fs r hs hblock hbrace _ _
  simp only [Stmt.print, Expr.inPlace_any, String.toList_append, String.reduceToList,
    List.append_assoc, List.cons_append, List.nil_append] at hs
  obtain ⟨s₁, h₁, hlatest⟩ := Stmt.IsScanned.test (k := .if_) htest hs (isTag_eq_false hblock)
  obtain ⟨s₂, h₂, hbrace₂⟩ := h.clause (by simp) h₁ hblock (.inl hlatest)
  obtain ⟨s₃, h₃, hbrace₃⟩ := else_ (by simp) halternate
    (by split <;> [exact .inl rfl; exact .inr rfl]) h₂ hblock hbrace₂
  exact ⟨s₃, by simpa [Stmt.lexemes] using h₃, hbrace₃⟩

/-- The second or third part of the head of a `for`. -/
theorem forPart {part : Option Expr} (h : ∀ e ∈ part, e.IsScanned)
    (hclear : part.all Expr.isClearInside = true)
    (hs : Scans s₀ (ls ++ [.mark .semicolon]) (.parens :: fs)
      ((printForPart indent part).toList ++ r) s) (hr : EndsText r) :
    ∃ s₁, Scans s₀ (ls ++ [.mark .semicolon] ++ forPartLexemes part) (.parens :: fs) r s₁ := by
  cases part with
  | none => exact ⟨s, by simpa [printForPart, forPartLexemes] using hs⟩
  | some e =>
    simp only [printForPart, Expr.inPlace_any, String.toList_append, String.reduceToList,
      List.cons_append, List.nil_append] at hs
    rw [forPartLexemes, Expr.lexemesInPlace_any]
    exact (h e rfl).plain hs.space rfl hr (.inside (by rw [hs.space.frames]; rintro ⟨⟩) hclear
      (by rw [hs.space.latest]; rintro ⟨⟩))

/-- The first part of the head of a `for`. -/
theorem forInit {init : Option Stmt} (hwf : ∀ st ∈ init, st.isForInit = true ∧ st.WellFormed)
    (hexpr : ∀ value, init = some (.expression value) → value.IsScanned)
    (hdecl : ∀ kind ds, init = some (.declaration kind ds) →
      ∀ d ∈ ds, ∀ e ∈ d.init, e.IsScanned)
    (hs : Scans s₀ ls (.parens :: fs) ((printForInit indent init).toList ++ r) s)
    (hr : EndsText r) (hlatest : s.latest? = some (.symbol .leftParen)) :
    ∃ s₁, Scans s₀ (ls ++ forInitLexemes init) (.parens :: fs) r s₁ := by
  cases init with
  | none => exact ⟨s, by simpa [printForInit, forInitLexemes] using hs⟩
  | some st =>
    obtain ⟨hinit, hst⟩ := hwf st rfl
    cases st with
    | expression value =>
      simp only [printForInit, Expr.inPlace_any] at hs
      simpa [forInitLexemes] using
        (hexpr value rfl).plain hs rfl hr
          (.of_latest hlatest rfl (.inr (by rw [hs.frames]; rintro ⟨⟩)))
    | declaration kind ds =>
      simp only [printForInit, String.toList_append, String.reduceToList, List.append_assoc,
        List.cons_append, List.nil_append] at hs
      exact declaredVariables (declaratorsWellFormed_iff.mp hst.2) (hdecl kind ds rfl)
        (fun _ _ _ _ => .inr (by rintro ⟨⟩)) hs rfl hr
    | _ => cases hinit

theorem for_ {init : Option Stmt} {test update : Option Expr}
    (hinit : ∀ st ∈ init, st.isForInit = true ∧ st.WellFormed)
    (hexpr : ∀ value, init = some (.expression value) → value.IsScanned)
    (hdecl : ∀ kind ds, init = some (.declaration kind ds) →
      ∀ d ∈ ds, ∀ e ∈ d.init, e.IsScanned)
    (htest : ∀ e ∈ test, e.IsScanned) (hupdate : ∀ e ∈ update, e.IsScanned)
    (hclear : (Stmt.for_ init test update st).isClear = true) (h : st.IsScanned) :
    (Stmt.for_ init test update st).IsScanned := by
  intro indent s₀ s ls fs r hs hblock hbrace _ _
  have hfs := isTag_eq_false hblock
  simp only [Stmt.print, String.toList_append, String.reduceToList, List.append_assoc,
    List.cons_append, List.nil_append] at hs
  simp only [Stmt.isClear, Bool.and_eq_true] at hclear
  obtain ⟨s₁, h₁⟩ := hs.keyword .for_ (not_isIdentifierPart_head (by rfl) _) hfs
  obtain ⟨s₂, h₂⟩ := h₁.space.openParen hfs
  obtain ⟨s₃, h₃⟩ := forInit hinit hexpr hdecl h₂ (.mark (by rfl) _) h₂.latest
  obtain ⟨s₄, h₄, -⟩ := semicolon h₃ rfl
  obtain ⟨s₅, h₅⟩ := forPart htest hclear.1 h₄ (.mark (by rfl) _)
  obtain ⟨s₆, h₆, -⟩ := semicolon h₅ rfl
  obtain ⟨s₇, h₇⟩ := forPart hupdate hclear.2 h₆ (.mark (by rfl) _)
  obtain ⟨s₈, h₈⟩ := h₇.closeParen
  obtain ⟨s₉, h₉, hbrace₉⟩ := h.clause (by simp) h₈ hblock (.inl h₈.latest)
  exact ⟨s₉, by simpa [Stmt.lexemes] using h₉, hbrace₉⟩

theorem export_ {declared : Stmt} (hdeclared : declared.isDeclaration = true)
    (h : declared.IsScanned) : (Stmt.export_ declared).IsScanned := by
  intro indent s₀ s ls fs r hs hblock hbrace _ _
  simp only [Stmt.print, String.toList_append, String.reduceToList, List.cons_append,
    List.nil_append] at hs
  obtain ⟨s₁, h₁⟩ := hs.keyword .export_ (not_isIdentifierPart_head (by rfl) _) (isTag_eq_false hblock)
  have hbrace₁ : s₁.braceFrame = .block := by
    simp [braceFrame, h₁.latest, Lexeme.keyword, Kind.expectsOperand, h₁.frames, hblock,
      Frame.isExpression]
  obtain ⟨s₂, h₂, hbrace₂⟩ := h h₁.space hblock hbrace₁ (fun htag => by
    cases declared <;>
      first | exact absurd hdeclared Bool.false_ne_true | exact absurd htag Bool.false_ne_true)
    fun _ => by rw [h₁.space.latest]; rintro ⟨⟩
  exact ⟨s₂, by simpa [Stmt.lexemes] using h₂, hbrace₂⟩

theorem decorator {d : Decorator} (hwf : d.WellFormed) (h : ∀ e ∈ d.arguments, e.IsScanned) :
    (Stmt.decorator d).IsScanned := by
  intro indent s₀ s ls fs r hs hblock hbrace _ _
  have hfs := isTag_eq_false hblock
  obtain ⟨name, es, span⟩ := d
  simp only [Stmt.print, Decorator.print, String.toList_append, String.reduceToList,
    List.append_assoc, List.cons_append, List.nil_append] at hs
  obtain ⟨s₁, h₁⟩ := hs.decoratorMark hfs
  obtain ⟨s₂, h₂, -⟩ := h₁.word hwf.1.1 (not_isIdentifierPart_head (by rfl) _) hfs
  obtain ⟨s₃, h₃⟩ := Expr.IsScanned.arguments h h₂ hfs
  exact ⟨s₃, by simpa [Stmt.lexemes, Decorator.lexemes] using h₃,
    braceFrame_eq_block h₃.latest (by decide)⟩

/-! ### Imports -/

/-- A name taken from a module is read from its text. -/
theorem specifier {x : ImportSpecifier} (hwf : x.WellFormed)
    (hs : Scans s₀ ls fs (x.print.toList ++ r) s) (hfs : fs.current.isTag = false)
    (hr : EndsText r) : ∃ s₁, Scans s₀ (ls ++ x.lexemes) fs r s₁ := by
  have hend (c : Char) (hc : c ∈ r.head?) : isIdentifierPart c = false := (hr c hc).1
  unfold ImportSpecifier.print at hs
  unfold ImportSpecifier.lexemes
  split at hs
  · next heq =>
    obtain ⟨s₁, h₁, -⟩ := hs.word (heq ▸ hwf.1) hend hfs
    exact ⟨s₁, by simpa [heq] using h₁⟩
  · next hne =>
    simp only [String.toList_append, String.reduceToList, List.append_assoc, List.cons_append,
      List.nil_append] at hs
    obtain ⟨s₁, h₁, -⟩ := hs.word hwf.1 (not_isIdentifierPart_head (by rfl) _) hfs
    obtain ⟨s₂, h₂, -⟩ := h₁.space.word (x := "as") (by decide +kernel)
      (not_isIdentifierPart_head (by rfl) _) hfs
    obtain ⟨s₃, h₃, -⟩ := h₂.space.word (hwf.2.resolve_left hne).1 hend hfs
    exact ⟨s₃, by simpa [hne] using h₃⟩

/-- Names in braces. -/
theorem specifiers {xs : List ImportSpecifier} (hwf : ∀ x ∈ xs, x.WellFormed)
    (hs : Scans s₀ ls fs ('{' :: ' ' ::
      ((commaSeparated (xs.map ImportSpecifier.print)).toList ++ ' ' :: '}' :: r)) s) :
    ∃ s₁, Scans s₀ (ls ++ .mark .leftBrace ::
      (commaLexemes (xs.map ImportSpecifier.lexemes) ++ [.mark .rightBrace])) fs r s₁ := by
  obtain ⟨s₁, h₁⟩ := hs.openBrace
  have hfs : (Frames.current (s.braceFrame :: fs)).isTag = false := by
    rcases s.braceFrame_cases with h | h <;> rw [h] <;> rfl
  obtain ⟨s₂, h₂⟩ := h₁.space.commaSeparated ImportSpecifier.lexemes (fun _ => True)
    (fun _ _ => trivial) (fun x hx _ _ _ hs hr _ => specifier (hwf x hx) hs hfs hr) hfs
    (.mark (by rfl) _) trivial
  obtain ⟨s₃, h₃, -⟩ := h₂.space.closeBrace s.braceFrame_cases
  exact ⟨s₃, by simpa using h₃⟩

/-- The part of an import behind its clauses. -/
theorem importFrom {source : String}
    (hs : Scans s₀ ls fs (' ' :: 'f' :: 'r' :: 'o' :: 'm' :: ' ' ::
      ((Text.quote source).toList ++ ';' :: r)) s) (hfs : fs.current.isTag = false) :
    ∃ s₁, Scans s₀ (ls ++ [.word "from", .string source, .mark .semicolon]) fs r s₁ ∧
      s₁.braceFrame = .block := by
  obtain ⟨s₁, h₁, -⟩ := hs.space.word (x := "from") (by decide +kernel)
    (not_isIdentifierPart_head (by rfl) _) hfs
  obtain ⟨s₂, h₂⟩ := h₁.space.string
  obtain ⟨s₃, h₃, hbrace⟩ := semicolon h₂ hfs
  exact ⟨s₃, by simpa using h₃, hbrace⟩

theorem import_ {defaultName : Option String} {xs : List ImportSpecifier} {source : String}
    (hdefault : ∀ x ∈ defaultName, IsIdentifier x) (hwf : ∀ x ∈ xs, x.WellFormed) :
    (Stmt.import_ defaultName xs source).IsScanned := by
  intro indent s₀ s ls fs r hs hblock hbrace _ _
  have hfs := isTag_eq_false hblock
  cases defaultName with
  | none =>
    cases xs with
    | nil =>
      simp only [Stmt.print, importText, Option.toList_none, List.isEmpty_nil, if_true,
        List.append_nil, String.toList_append, String.reduceToList, List.append_assoc,
        List.cons_append, List.nil_append] at hs
      obtain ⟨s₁, h₁⟩ := hs.keyword .import_ (not_isIdentifierPart_head (by rfl) _) hfs
      obtain ⟨s₂, h₂⟩ := h₁.space.string
      obtain ⟨s₃, h₃, hbrace₃⟩ := semicolon h₂ hfs
      exact ⟨s₃, by simpa [Stmt.lexemes, importLexemes, importClauses] using h₃, hbrace₃⟩
    | cons y ys =>
      simp only [Stmt.print, importText, Option.toList_none, List.isEmpty_cons, Bool.false_eq_true,
        if_false, commaSeparated, String.intercalate_singleton, String.toList_append,
        String.reduceToList, List.append_assoc, List.cons_append, List.nil_append] at hs
      obtain ⟨s₁, h₁⟩ := hs.keyword .import_ (not_isIdentifierPart_head (by rfl) _) hfs
      obtain ⟨s₂, h₂⟩ := specifiers hwf h₁.space
      obtain ⟨s₃, h₃, hbrace₃⟩ := importFrom h₂ hfs
      exact ⟨s₃, by simpa [Stmt.lexemes, importLexemes, importClauses, commaLexemes] using h₃,
        hbrace₃⟩
  | some x =>
    have hx := (hdefault x rfl).1
    cases xs with
    | nil =>
      simp only [Stmt.print, importText, Option.toList_some, List.isEmpty_nil, List.isEmpty_cons,
        Bool.false_eq_true, if_true, if_false, commaSeparated, List.append_nil,
        String.intercalate_singleton, String.toList_append, String.reduceToList, List.append_assoc,
        List.cons_append, List.nil_append] at hs
      obtain ⟨s₁, h₁⟩ := hs.keyword .import_ (not_isIdentifierPart_head (by rfl) _) hfs
      obtain ⟨s₂, h₂, -⟩ := h₁.space.word hx (not_isIdentifierPart_head (by rfl) _) hfs
      obtain ⟨s₃, h₃, hbrace₃⟩ := importFrom h₂ hfs
      exact ⟨s₃, by simpa [Stmt.lexemes, importLexemes, importClauses, commaLexemes] using h₃,
        hbrace₃⟩
    | cons y ys =>
      simp only [Stmt.print, importText, Option.toList_some, List.isEmpty_cons, Bool.false_eq_true,
        if_false, commaSeparated, String.intercalate_cons_cons, String.intercalate_singleton,
        String.toList_append, String.reduceToList, List.append_assoc, List.cons_append,
        List.nil_append] at hs
      obtain ⟨s₁, h₁⟩ := hs.keyword .import_ (not_isIdentifierPart_head (by rfl) _) hfs
      obtain ⟨s₂, h₂, -⟩ := h₁.space.word hx (not_isIdentifierPart_head (by rfl) _) hfs
      obtain ⟨s₃, h₃⟩ := h₂.scriptMark .comma (by decide) (by decide)
        (.of_longest (by decide) (by decide) _) hfs
      obtain ⟨s₄, h₄⟩ := specifiers hwf h₃.space
      obtain ⟨s₅, h₅, hbrace₅⟩ := importFrom h₄ hfs
      exact ⟨s₅, by simpa [Stmt.lexemes, importLexemes, importClauses, commaLexemes] using h₅,
        hbrace₅⟩

/-! ### Tags -/

/-- A name ends in front of attributes. -/
theorem head?_printAttributes {as : List Attribute} (hr : ∀ c ∈ r.head?, isNamePart c = false) :
    ∀ c ∈ ((printAttributes indent as).toList ++ r).head?, isNamePart c = false := by
  cases as with
  | nil => simpa [printAttributes] using hr
  | cons a as =>
    simp only [printAttributes_cons, String.toList_append, String.reduceToList]
    rintro c ⟨⟩
    decide

/-- An attribute is read from its text. -/
theorem tagAttribute {a : Attribute} (hwf : a.WellFormed) (h : ∀ x e, a = .braced x e → e.IsScanned)
    (hclear : ∀ x e, a = .braced x e → e.isClearInside = true)
    (hs : Scans s₀ ls (.openTag :: fs) ((a.print indent).toList ++ r) s)
    (hr : ∀ c ∈ r.head?, isNamePart c = false) :
    ∃ s₁, Scans s₀ (ls ++ a.lexemes) (.openTag :: fs) r s₁ ∧
      s₁.latest? ≠ some (.symbol .tagStart) := by
  have hassign {x : String} {c : Char} {cs : List Char} (hx : isTagName x = true)
      (hc : c ∉ Symbol.assign.extensions)
      (h : Scans s₀ ls (.openTag :: fs) (x.toList ++ '=' :: c :: cs) s) :
      ∃ s₁, Scans s₀ (ls ++ [.name x] ++ [.mark .assign]) (.openTag :: fs) (c :: cs) s₁ := by
    obtain ⟨s₁, h₁⟩ := h.name hx (by rintro c ⟨⟩; decide) rfl
    exact h₁.mark .assign (by decide) (.of_extensions (by decide) (by rintro c ⟨⟩; exact hc))
      ⟨fun _ => .inl rfl, by rintro (h | h) <;> cases h⟩ rfl (by rintro ⟨⟩) rfl
  cases a with
  | bare x =>
    obtain ⟨s₁, h₁⟩ := Scans.name hs hwf hr rfl
    exact ⟨s₁, h₁, by rw [h₁.latest]; rintro ⟨⟩⟩
  | text x value =>
    simp only [Attribute.print, String.toList_append, String.reduceToList, Text.toList_quote,
      List.append_assoc, List.cons_append, List.nil_append] at hs
    obtain ⟨s₁, h₁⟩ := hassign hwf (by decide) hs
    obtain ⟨s₂, h₂⟩ := Scans.string (v := value) (r := r) (by simpa [Text.toList_quote] using h₁)
    exact ⟨s₂, by simpa [Attribute.lexemes] using h₂, by rw [h₂.latest]; rintro ⟨⟩⟩
  | braced x e =>
    simp only [Attribute.print, String.toList_append, String.reduceToList, List.append_assoc,
      List.cons_append, List.nil_append] at hs
    obtain ⟨s₁, h₁⟩ := hassign hwf.1 (by decide) hs
    obtain ⟨s₂, h₂⟩ := h₁.openBrace
    have hframe : s₁.braceFrame = .braces := by
      simp [braceFrame, h₁.latest, Lexeme.mark, Kind.expectsOperand]
    rw [hframe] at h₂
    obtain ⟨s₃, h₃⟩ := (h x e rfl).plain h₂ rfl (.mark (by rfl) _)
      (.inside (by rw [h₂.frames]; rintro ⟨⟩) (hclear x e rfl) (by rw [h₂.latest]; rintro ⟨⟩))
    obtain ⟨s₄, h₄, -⟩ := h₃.closeBrace (.inr rfl)
    exact ⟨s₄, by simpa [Attribute.lexemes] using h₄, by rw [h₄.latest]; rintro ⟨⟩⟩

/-- Behind the name of a tag and its attributes, a slash does not make it one that closes an
element. -/
theorem attributes {as : List Attribute} (hwf : ∀ a ∈ as, a.WellFormed)
    (h : ∀ x e, .braced x e ∈ as → e.IsScanned)
    (hclear : ∀ x e, .braced x e ∈ as → e.isClearInside = true)
    (hs : Scans s₀ ls (.openTag :: fs) ((printAttributes indent as).toList ++ r) s)
    (hr : ∀ c ∈ r.head?, isNamePart c = false) (hlatest : s.latest? ≠ some (.symbol .tagStart)) :
    ∃ s₁, Scans s₀ (ls ++ attributesLexemes as) (.openTag :: fs) r s₁ ∧
      s₁.latest? ≠ some (.symbol .tagStart) := by
  induction as generalizing ls s with
  | nil => exact ⟨s, by simpa [printAttributes, attributesLexemes] using hs, hlatest⟩
  | cons a as ih =>
    simp only [printAttributes_cons, String.toList_append, String.reduceToList, List.append_assoc,
      List.cons_append, List.nil_append] at hs
    obtain ⟨s₁, h₁, hlatest₁⟩ := tagAttribute (hwf a List.mem_cons_self)
      (fun x e ha => h x e (ha ▸ List.mem_cons_self))
      (fun x e ha => hclear x e (ha ▸ List.mem_cons_self)) hs.space
      (head?_printAttributes hr)
    obtain ⟨s₂, h₂, hlatest₂⟩ := ih (fun a ha => hwf a (List.mem_cons_of_mem _ ha))
      (fun x e hm => h x e (List.mem_cons_of_mem _ hm))
      (fun x e hm => hclear x e (List.mem_cons_of_mem _ hm)) h₁ hlatest₁
    exact ⟨s₂, by simpa [attributesLexemes_eq] using h₂, hlatest₂⟩

/-- A tag up to its end. -/
theorem tagHead {name : String} {as : List Attribute} (hname : isTagName name = true)
    (hwf : ∀ a ∈ as, a.WellFormed) (h : ∀ x e, .braced x e ∈ as → e.IsScanned)
    (hclear : attributesClear as = true)
    (hs : Scans s₀ ls fs
      ('<' :: (name.toList ++ ((printAttributes indent as).toList ++ r))) s)
    (hr : ∀ c ∈ r.head?, isNamePart c = false) (hblock : fs.current = .block)
    (hline : s.newline = true ∨ s.tokens = []) :
    ∃ s₁, Scans s₀ (ls ++ .mark .tagStart :: .name name :: attributesLexemes as)
      (.openTag :: fs) r s₁ ∧ s₁.latest? ≠ some (.symbol .tagStart) := by
  obtain ⟨s₁, h₁⟩ := hs.openTag (isTag_eq_false hblock) (opensTag_of_newline hs.frames hblock hline)
  obtain ⟨s₂, h₂⟩ := h₁.name hname (head?_printAttributes hr) rfl
  obtain ⟨s₃, h₃, hlatest⟩ := attributes hwf h (attributesClear_iff.mp hclear) h₂ hr
    (by rw [h₂.latest]; nofun)
  exact ⟨s₃, by simpa using h₃, hlatest⟩

theorem elementStart {name : String} {as : List Attribute} {span : Span}
    (hname : isTagName name = true) (hwf : ∀ a ∈ as, a.WellFormed)
    (hclear : attributesClear as = true) (h : ∀ x e, .braced x e ∈ as → e.IsScanned) :
    (Stmt.elementStart name as span).IsScanned := by
  intro indent s₀ s ls fs r hs hblock hbrace hline _
  simp only [Stmt.print, String.toList_append, String.reduceToList, List.append_assoc,
    List.cons_append, List.nil_append] at hs
  obtain ⟨s₁, h₁, -⟩ := tagHead hname hwf h hclear hs (by rintro c ⟨⟩; decide) hblock (hline rfl)
  obtain ⟨s₂, h₂⟩ := h₁.closeTag rfl
  exact ⟨s₂, by simpa [Stmt.lexemes] using h₂, braceFrame_eq_block h₂.latest (by decide)⟩

theorem element {name : String} {as : List Attribute} {span : Span}
    (hname : isTagName name = true) (hwf : ∀ a ∈ as, a.WellFormed)
    (hclear : attributesClear as = true) (h : ∀ x e, .braced x e ∈ as → e.IsScanned) :
    (Stmt.element name as span).IsScanned := by
  intro indent s₀ s ls fs r hs hblock hbrace hline _
  simp only [Stmt.print, String.toList_append, String.reduceToList, List.append_assoc,
    List.cons_append, List.nil_append] at hs
  obtain ⟨s₁, h₁, hlatest⟩ := tagHead hname hwf h hclear hs (by rintro c ⟨⟩; decide) hblock
    (hline rfl)
  obtain ⟨s₂, h₂⟩ := h₁.mark .slash (by decide) (by rintro c ⟨⟩; decide)
    ⟨fun _ => .inr ⟨rfl, hlatest⟩, nofun⟩ (l := .mark .slash) rfl nofun rfl
  obtain ⟨s₃, h₃⟩ := h₂.closeTag rfl
  exact ⟨s₃, by simpa [Stmt.lexemes] using h₃, braceFrame_eq_block h₃.latest (by decide)⟩

theorem elementEnd {name : String} {span : Span} (hname : isTagName name = true) :
    (Stmt.elementEnd name span).IsScanned := by
  intro indent s₀ s ls fs r hs hblock hbrace hline _
  simp only [Stmt.print, String.toList_append, String.reduceToList, List.append_assoc,
    List.cons_append, List.nil_append] at hs
  obtain ⟨s₁, h₁⟩ := hs.openTag (isTag_eq_false hblock)
    (opensTag_of_newline hs.frames hblock (hline rfl))
  have hslash : EndsBefore .slash (name.toList ++ '>' :: r) := by
    obtain ⟨c, cs, hcs, hc, -⟩ := exists_cons_of_isTagName hname
    have hne (d : Char) (hd : isNameStart d = false) : c ≠ d := by
      rintro rfl
      rw [hd] at hc
      cases hc
    rw [hcs]
    rintro c ⟨⟩
    refine ⟨Symbol.extendedBy_eq_false ?_, nofun, fun _ => ⟨hne _ rfl, hne _ rfl⟩⟩
    rw [show Symbol.slash.extensions = ['='] by decide, List.mem_singleton]
    exact hne _ rfl
  obtain ⟨s₂, h₂⟩ := h₁.endTagSlash hslash
  obtain ⟨s₃, h₃⟩ := h₂.name hname (by rintro c ⟨⟩; decide) rfl
  obtain ⟨s₄, h₄⟩ := h₃.closeTag rfl
  exact ⟨s₄, by simpa [Stmt.lexemes] using h₄, braceFrame_eq_block h₄.latest (by decide)⟩

end Stmt.IsScanned

end MarkupScript
