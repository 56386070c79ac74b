import MarkupScript.Proofs.Print.Statements

/-!
# Reading printed programs

Expressions contain statements only in the bodies of arrow functions. With that case the theorems
about the single forms make an induction over trees, and the tokens of a printed program are its
lexemes and the end of the source.
-/

namespace MarkupScript

open Scanner

theorem Expr.IsScanned.arrowBlock {params : List String} {body : List Stmt} {span : Span}
    (hparams : ∀ x ∈ params, IsIdentifier x) (hbehind : comparesBehindTag body = false)
    (h : ∀ st ∈ body, st.IsScanned) : (Expr.arrow params (.block body) span).IsScanned := by
  intro indent s₀ s ls fs r hs hfs hr _
  simp only [Expr.print, ArrowBody.print, String.toList_append, String.reduceToList,
    List.append_assoc, List.cons_append, List.nil_append] at hs
  obtain ⟨s₁, h₁, -⟩ := parameters hparams hs hfs
  obtain ⟨s₂, h₂⟩ := h₁.space.scriptMark .arrow (by decide) (by decide) (.space _ _) hfs
  obtain ⟨s₃, h₃, -⟩ := Stmt.IsScanned.inBraces h hbehind h₂.space
    (braceFrame_eq_block h₂.latest (by decide))
  exact ⟨s₃, by simpa [Expr.lexemes, ArrowBody.lexemes] using h₃,
    fun hc => absurd hc.level (show ¬Level.conditional < Level.assignment by decide)⟩

/-- Clear lines are clear statements, none of them a comparison right behind a tag. -/
theorem linesClear_iff {body : List Stmt} :
    linesClear body = true ↔ (∀ s ∈ body, s.isClear = true) ∧ comparesBehindTag body = false := by
  simp [linesClear]

theorem isScanned_tree :
    TreeInduction (fun e => e.IsSound Expr.keepsComparisons Stmt.keepsComparisons → e.IsScanned)
      (fun s => s.IsSound Expr.keepsComparisons Stmt.keepsComparisons → s.isClear = true →
        s.IsScanned) where
  number _ _ h := .number h.1
  string _ _ _ := .string _ _
  boolean _ _ _ := .boolean _ _
  null _ _ := .null _
  this_ _ _ := .this_ _
  identifier _ _ h := .identifier h.1
  binary _ _ _ _ hl hr h := .binary h.1.1 (hl h.binary.1) (hr h.binary.2)
  unary _ _ _ ho h := .unary h.1 (ho h.unary)
  update _ _ _ _ ho h := .update h.1.1 h.1.2 (ho h.update)
  member _ _ _ _ _ hb hp h := .member h.1 (hb h.member.1) fun hc => hp (h.member.2 hc)
  call _ _ _ hc ha h := .call (hc h.call.1) fun e he => ha e he (h.call.2 e he)
  new _ _ _ hc ha h := .new (hc h.new.1) fun e he => ha e he (h.new.2 e he)
  conditional _ _ _ _ ht hc ha h :=
    .conditional (ht h.conditional.1) (hc h.conditional.2.1) (ha h.conditional.2.2)
  object _ _ hp h :=
    .object (propertiesWellFormed_iff.mp h.1) fun p hm hlong => hp p hm (h.object p hm hlong)
  array _ _ hi h := .array fun e he => hi e he (h.array e he)
  arrowExpression _ _ _ hv h := .arrowExpression h.1.1 h.1.2 (hv h.arrowExpression)
  arrowBlock _ _ _ hb h := by
    obtain ⟨hclear, hbehind⟩ := linesClear_iff.mp h.passes
    exact .arrowBlock h.1.1 hbehind fun t ht => hb t ht (h.arrowBlock t ht) (hclear t ht)
  assignment _ _ _ _ ht hv h := .assignment (ht h.assignment.1) (hv h.assignment.2)
  expression _ hv h hclear := .expression h.1 hclear (hv h.expression)
  declaration _ _ hd h hclear := .declaration (declaratorsWellFormed_iff.mp h.1.2) hclear
    fun d hm e he => hd d hm e he (h.declaration d hm e he)
  function name params body decorator hb _ h _ := by
    obtain ⟨rfl, hbody⟩ := h.function
    obtain ⟨hclear, hbehind⟩ := linesClear_iff.mp h.passes
    exact .function h.1.1 h.1.2.1 hbehind fun t ht => hb t ht (hbody t ht) (hclear t ht)
  return_ value hv h hclear := by
    cases value with
    | none => exact .keywordAlone (k := .return_) (fun _ => rfl) rfl
    | some e => exact .return_ hclear (hv e rfl (h.return_ e rfl))
  if_ _ _ _ ht hc ha h _ := by
    have hclear := h.passes
    simp only [Stmt.keepsComparisons, Bool.and_eq_true, Option.all_eq_true] at hclear
    exact .if_ (ht h.if_.1) (hc h.if_.2.1 hclear.1)
      fun s hs => ha s hs (h.if_.2.2 s hs) (hclear.2 s hs)
  while_ _ _ ht hb h _ := .while_ (ht h.while_.1) (hb h.while_.2 h.passes)
  for_ init test update body _ he hd ht hu hb h hclear := by
    obtain ⟨hinit, htest, hupdate, hbody⟩ := h.for_
    refine .for_ (fun s hs => ⟨h.1.1 s hs, (hinit s hs).1⟩) ?_ ?_
      (fun e hm => ht e hm (htest e hm)) (fun e hm => hu e hm (hupdate e hm)) hclear
      (hb hbody h.passes)
    · rintro value rfl
      exact he value rfl (hinit _ rfl).expression
    · rintro kind ds rfl d hm e hme
      exact hd kind ds rfl d hm e hme ((hinit _ rfl).declaration d hm e hme)
  block _ hb h _ := by
    obtain ⟨hclear, hbehind⟩ := linesClear_iff.mp h.passes
    exact .block hbehind fun t ht => hb t ht (h.block t ht) (hclear t ht)
  break_ _ _ := .keywordAlone (k := .break_) (fun _ => rfl) rfl
  continue_ _ _ := .keywordAlone (k := .continue_) (fun _ => rfl) rfl
  import_ _ _ _ h _ := .import_ h.1.1 h.1.2
  export_ _ hd h _ := .export_ h.1.1 (hd h.export_ h.passes)
  empty _ _ := .empty
  elementStart _ _ _ ha h hclear := .elementStart h.1.1 (attributesWellFormed_iff.mp h.1.2) hclear
    fun x e hm => ha x e hm (h.elementStart x e hm)
  elementEnd _ _ h _ := .elementEnd h.1
  element _ _ _ ha h hclear := .element h.1.1 (attributesWellFormed_iff.mp h.1.2) hclear
    fun x e hm => ha x e hm (h.element x e hm)
  decorator _ ha h _ := .decorator h.1 fun e he => ha e he (h.decorator e he)

/-- Reading ends at the end of the source. -/
theorem tokenize_of_moves {source : String} {s : Scanner} {ls : List Lexeme} {fs : Frames}
    (h : Moves (.start source.toList) ls fs [] s) :
    tokenize source = .ok (s.take .endOfInput 0).tokens.reverse := by
  obtain ⟨k, hk, hrun⟩ := h.reaches
  have hfuel : source.toList.length + 1 = source.toList.length - k + 1 + k := by
    have : (Scanner.start source.toList).rest.length = source.toList.length := rfl
    omega
  rw [tokenize, hfuel, hrun, run_of_rest_eq_nil h.rest]
  rfl

/-- The tokens of a source that was read to its end are the lexemes that were read. -/
theorem exists_tokens_of_moves {source : String} {s : Scanner} {ls : List Lexeme} {fs : Frames}
    (h : Moves (.start source.toList) ls fs [] s) :
    ∃ tokens last, tokenize source = .ok tokens ∧ Shows ls tokens [last] ∧
      last.kind = .endOfInput := by
  obtain ⟨new, hnew, hshows⟩ := h.tokens
  have htokens : (s.take .endOfInput 0).tokens.reverse =
      new ++ (s.take .endOfInput 0).tokens.take 1 := by
    simp [take, emit, hnew, Scanner.start]
  exact ⟨_, _, (tokenize_of_moves h).trans (congrArg _ htokens), hshows.append_right _, rfl⟩

/-- The tokens of a printed program are its lexemes, if no comparison looks like a tag. -/
theorem tokenize_print_of_keepsComparisons {p : Program} (hwf : p.WellFormed)
    (hkeeps : p.keepsComparisons = true) :
    ∃ tokens last, tokenize p.print = .ok tokens ∧
      Shows (stmtsLexemes p.body) tokens [last] ∧ last.kind = .endOfInput := by
  simp only [Program.keepsComparisons, Bool.and_eq_true] at hkeeps
  obtain ⟨hlines, hevery⟩ := hkeeps
  obtain ⟨hclear, hbehind⟩ := linesClear_iff.mp hlines
  have hstart : Scans (.start p.print.toList) [] [] ((printLines 0 p.body).toList ++ [])
      (.start p.print.toList) := .start (List.append_nil _).symm rfl
  obtain ⟨s, h⟩ := Stmt.IsScanned.lines
    (fun st hm => isScanned_tree.stmt st (Program.isSound hwf hevery st hm) (hclear st hm)) hbehind
    hstart rfl rfl (.inr rfl) fun _ _ _ => by rintro ⟨⟩
  exact exists_tokens_of_moves h.of_onLine

theorem tokenize_print {p : Program} (hwf : p.WellFormed) (hback : p.readsBack = true) :
    ∃ tokens last, tokenize p.print = .ok tokens ∧
      Shows (stmtsLexemes p.body) tokens [last] ∧ last.kind = .endOfInput :=
  tokenize_print_of_keepsComparisons hwf (Program.keepsComparisons_of_readsBack hback)

end MarkupScript
