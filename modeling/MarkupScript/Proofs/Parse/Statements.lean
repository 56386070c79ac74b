import MarkupScript.Proofs.Parse.Lines

/-!
# Reading statements

The productions of statements, up to those for blocks and lists of lines.
-/

namespace MarkupScript

namespace Parse

variable {rules : Rules}

/-! ### Expressions and declarations -/

/-- Where an expression starts, other than with a brace, an expression is read. -/
theorem run_statement_expression {s : Stream} (h : 1 ≤ s.kind.startLevel)
    (hb : s.kind ≠ .symbol .leftBrace) : statement rules s = expressionStatement rules s := by
  rw [statement, run_bind (run_peekKind _)]
  generalize s.kind = k at h hb
  cases k with
  | symbol mark => cases mark <;> first | rfl | exact absurd rfl hb | exact absurd h (by decide)
  | keyword word => cases word <;> first | rfl | exact absurd h (by decide)
  | _ => rfl

theorem ReadsStmt.expression {ls : List Lexeme} {value value' : Expr}
    (h : ReadsAt (Parse.expression rules) Level.assignment ls value')
    (hstart : ∃ l rest, ls = l :: rest ∧ 1 ≤ l.kind.startLevel ∧ l.kind ≠ .symbol .leftBrace) :
    ReadsStmt (statement rules) (ls ++ [.mark .semicolon]) (.expression value)
      (.expression value') := by
  refine .of_reads (fun b els ahead rest hs _ => ?_) rfl fun _ => rfl
  obtain ⟨l, ls, rfl, hl, hb⟩ := hstart
  obtain ⟨middle, h₁, t, rest', rfl, ⟨ht, -⟩, rfl⟩ := shows_append.mp hs
  have ht : t.kind = .symbol .semicolon := ht
  obtain ⟨e', b', he, hv⟩ := h b els ahead _ h₁
    (by show (nextKind (t :: rest')).joinLevel < _; rw [nextKind_cons, ht]; decide)
  refine ⟨.expression e', some t, ?_, by simp [Stmt.withoutSpans, hv]⟩
  rw [run_statement_expression (by simpa [h₁.nextKind] using hl) (by simpa [h₁.nextKind] using hb),
    expressionStatement, run_bind he, run_bind (run_semicolon ht)]
  rfl

/-- A declared variable reads up to a comma or the semicolon. -/
theorem Reads.declarator {d : Declarator} {f : Expr → Expr} (hname : IsIdentifier d.name)
    (h : ∀ e ∈ d.init, ReadsAt (Parse.expression rules) Level.assignment e.lexemes (f e)) :
    Reads (Parse.declarator rules) d.lexemes (fun k => k = .symbol .comma ∨ k = .symbol .semicolon)
      Declarator.withoutSpans (Declarator.withoutSpans { d with init := d.init.map f }) := by
  obtain ⟨name, init⟩ := d
  intro b els ahead rest hs hstop
  cases init with
  | none =>
    obtain ⟨t, ahead', rfl, ⟨ht, -⟩, rfl⟩ := hs
    have hassign : (Stream.mk (some t) ahead' els).kind ≠ .symbol .assign := by
      rcases hstop with h | h <;> simp [h]
    refine ⟨⟨name, none⟩, some t, ?_, rfl⟩
    rw [Parse.declarator, run_bind (run_identifier (ht.trans hname.2)),
      run_bind (run_eat_other hassign)]
    rfl
  | some e =>
    obtain ⟨t, ahead₁, rfl, ⟨ht, -⟩, u, ahead₂, rfl, ⟨hu, -⟩, hs⟩ := hs
    have hu : u.kind = .symbol .assign := hu
    obtain ⟨e', b', he, hv⟩ := h e rfl (some u) els ahead₂ rest hs
      (by rcases hstop with h | h <;> rw [h] <;> decide)
    refine ⟨⟨name, some e'⟩, b', ?_, by simp [Declarator.withoutSpans, exprWithoutSpans?, hv]⟩
    rw [Parse.declarator, run_bind (run_identifier (ht.trans hname.2)), run_bind (run_eat hu)]
    simp only [if_true]
    rw [run_bind he]
    rfl

theorem Reads.declaration {kind : VariableKind} {ds : List Declarator} {f : Expr → Expr}
    (hds : ds ≠ []) (hwf : ∀ d ∈ ds, IsIdentifier d.name)
    (h : ∀ d ∈ ds, ∀ e ∈ d.init,
      ReadsAt (Parse.expression rules) Level.assignment e.lexemes (f e)) :
    Reads (Parse.declaration rules kind)
      (.keyword kind.keyword :: commaLexemes (declaratorsLexemes ds)) (· = .symbol .semicolon)
      Stmt.withoutSpans
      (Stmt.declaration kind (ds.map fun d => { d with init := d.init.map f })).withoutSpans := by
  rw [declaratorsLexemes_eq]
  rintro b els ahead rest ⟨t, ahead₁, rfl, -, hs⟩ hstop
  obtain ⟨ds', b', hp, hv⟩ := Reads.commaItems (by decide) ds
    (fun d hd => Reads.declarator (hwf d hd) (h d hd)) hds (some t) els ahead₁ rest hs hstop
  refine ⟨.declaration kind ds', b', ?_, by simp [Stmt.withoutSpans, declaratorsWithoutSpans_eq, hv]⟩
  rw [Parse.declaration, run_bind (run_advance _ _ _ _), run_bind hp]
  rfl

theorem run_statement_declaration {kind : VariableKind} {b : Option Token} {els : List String}
    {ahead : List Token} (hk : nextKind ahead = .keyword kind.keyword) :
    statement rules ⟨b, ahead, els⟩ = declarationStatement rules kind ⟨b, ahead, els⟩ := by
  rw [statement, run_bind (run_peekKind _)]
  cases kind <;> simp only [Stream.kind_mk, hk, VariableKind.keyword]

theorem ReadsStmt.declaration {kind : VariableKind} {ds : List Declarator} {f : Expr → Expr}
    (hds : ds ≠ []) (hwf : ∀ d ∈ ds, IsIdentifier d.name)
    (h : ∀ d ∈ ds, ∀ e ∈ d.init,
      ReadsAt (Parse.expression rules) Level.assignment e.lexemes (f e)) :
    ReadsStmt (statement rules) (Stmt.declaration kind ds).lexemes (.declaration kind ds)
      (.declaration kind (ds.map fun d => { d with init := d.init.map f })) := by
  refine .of_reads (fun b els ahead rest hs _ => ?_) rfl fun _ => rfl
  obtain ⟨middle, h₁, t, rest', rfl, ⟨ht, -⟩, rfl⟩ := shows_append.mp hs
  have ht : t.kind = .symbol .semicolon := ht
  obtain ⟨s', b', hp, hv⟩ := Reads.declaration hds hwf h b els ahead _ h₁ ht
  refine ⟨s', some t, ?_, hv⟩
  rw [run_statement_declaration h₁.nextKind, declarationStatement, run_bind hp,
    run_bind (run_semicolon ht)]
  rfl

theorem run_statement_function {b : Option Token} {els : List String} {ahead : List Token}
    (hk : nextKind ahead = .keyword .function_) :
    statement rules ⟨b, ahead, els⟩ = Parse.function rules ⟨b, ahead, els⟩ := by
  rw [statement, run_bind (run_peekKind _)]
  simp only [Stream.kind_mk, hk]

theorem ReadsStmt.function {name : String} {params : List String} {body body' : List Stmt}
    (hname : IsIdentifier name) (hparams : ∀ x ∈ params, IsIdentifier x)
    (h : Reads (Parse.functionBody rules) (blockLexemes body) (fun _ => True)
      (List.map Stmt.withoutSpans) (body'.map Stmt.withoutSpans)) :
    ReadsStmt (statement rules) (Stmt.function name params body none).lexemes
      (.function name params body none) (.function name params body' none) := by
  refine .of_reads (fun b els ahead rest hs hstop => ?_) rfl fun _ => rfl
  simp only [Stmt.lexemes, decoratorLexemes?, List.nil_append, List.cons_append,
    List.append_assoc] at hs
  obtain ⟨t, ahead₁, rfl, ⟨ht, -⟩, u, ahead₂, rfl, ⟨hu, -⟩, hs⟩ := hs
  obtain ⟨middle, h₁, h₂⟩ := shows_append.mp hs
  have ht : t.kind = .keyword .function_ := ht
  obtain ⟨params', b₁, hp, rfl⟩ := Reads.params hparams (some u) els ahead₂ _ h₁ trivial
  obtain ⟨read, b', hb, hv⟩ := h b₁ els middle rest h₂ trivial
  refine ⟨.function name params' read none, b', ?_,
    by simp [Stmt.withoutSpans, stmtsWithoutSpans_eq, hv]⟩
  rw [run_statement_function (show nextKind (t :: u :: ahead₂) = _ from ht), Parse.function,
    run_bind (run_expect ht), run_bind (run_identifier (hu.trans hname.2)), run_bind hp,
    run_bind hb]
  rfl

/-- An export is the word and the declaration behind it, which is told by its first token as any
statement is. -/
theorem ReadsStmt.export_ {declared declared' : Stmt}
    (h : ReadsStmt (statement rules) declared.lexemes declared declared')
    (hdeclared : (∃ kind ds, declared = .declaration kind ds) ∨
      (∃ name params body, declared = .function name params body none)) :
    ReadsStmt (statement rules) (Stmt.export_ declared).lexemes (.export_ declared)
      (.export_ declared') := by
  rintro b els ahead rest m ⟨t, ahead₁, rfl, ⟨ht, -⟩, hs⟩ _ _ hm
  have ht : t.kind = .keyword .export_ := ht
  obtain ⟨hopen, hend⟩ : declared.endsOpen = false ∧ declared.endsInDecorator = false := by
    rcases hdeclared with ⟨kind, ds, rfl⟩ | ⟨name, params, body, rfl⟩ <;> exact ⟨rfl, rfl⟩
  obtain ⟨s', b', els', hp, hv, hlen⟩ := h (some t) els ahead₁ rest m hs (by simp [hopen])
    (by simp [hend]) hm
  rw [hend, dropSemicolon_false] at hp
  refine ⟨.export_ s', b', els', ?_, by simp [Stmt.withoutSpans, hv], hlen⟩
  have hrun : statement rules ⟨b, t :: ahead₁, els⟩ = Parse.export_ rules ⟨b, t :: ahead₁, els⟩ := by
    rw [statement, run_bind (run_peekKind _)]
    simp only [Stream.kind_mk, nextKind_cons, ht]
  rw [hrun, Parse.export_, run_bind (run_advance _ _ _ _), run_bind (run_peekKind _)]
  rcases hdeclared with ⟨kind, ds, rfl⟩ | ⟨name, params, body, rfl⟩
  · have hk : nextKind ahead₁ = .keyword kind.keyword := hs.nextKind
    rw [run_statement_declaration hk] at hp
    cases kind <;>
    · simp only [Stream.kind_mk, hk, VariableKind.keyword, VariableKind.ofKind?]
      rw [run_bind hp]
      rfl
  · have hk : nextKind ahead₁ = .keyword .function_ := hs.nextKind
    rw [run_statement_function hk] at hp
    simp only [Stream.kind_mk, hk]
    rw [run_bind hp]
    rfl

/-! ### Control flow -/

theorem ReadsStmt.empty : ReadsStmt (statement rules) Stmt.empty.lexemes .empty .empty := by
  refine .of_reads ?_ rfl fun _ => rfl
  rintro b els ahead rest ⟨t, ahead₁, rfl, ⟨ht, -⟩, rfl⟩ -
  have ht : t.kind = .symbol .semicolon := ht
  refine ⟨.empty, some t, ?_, rfl⟩
  rw [statement, run_bind (run_peekKind _)]
  simp only [Stream.kind_mk, nextKind_cons, ht]
  rw [run_bind (run_advance _ _ _ _)]
  rfl

theorem run_wordStatement {s : Stmt} {b : Option Token} {els : List String} {t u : Token}
    {rest : List Token} (hu : u.kind = .symbol .semicolon) :
    wordStatement s ⟨b, t :: u :: rest, els⟩ = .ok s ⟨some u, rest, els⟩ := by
  rw [wordStatement, run_bind (run_advance _ _ _ _), run_bind (run_semicolon hu)]
  rfl

theorem ReadsStmt.break_ : ReadsStmt (statement rules) Stmt.break_.lexemes .break_ .break_ := by
  refine .of_reads ?_ rfl fun _ => rfl
  rintro b els ahead rest ⟨t, ahead₁, rfl, ⟨ht, -⟩, u, ahead₂, rfl, ⟨hu, -⟩, rfl⟩ -
  have ht : t.kind = .keyword .break_ := ht
  refine ⟨.break_, some u, ?_, rfl⟩
  rw [statement, run_bind (run_peekKind _)]
  simp only [Stream.kind_mk, nextKind_cons, ht]
  exact run_wordStatement hu

theorem ReadsStmt.continue_ :
    ReadsStmt (statement rules) Stmt.continue_.lexemes .continue_ .continue_ := by
  refine .of_reads ?_ rfl fun _ => rfl
  rintro b els ahead rest ⟨t, ahead₁, rfl, ⟨ht, -⟩, u, ahead₂, rfl, ⟨hu, -⟩, rfl⟩ -
  have ht : t.kind = .keyword .continue_ := ht
  refine ⟨.continue_, some u, ?_, rfl⟩
  rw [statement, run_bind (run_peekKind _)]
  simp only [Stream.kind_mk, nextKind_cons, ht]
  exact run_wordStatement hu

theorem run_statement_return {b : Option Token} {els : List String} {t : Token}
    {ahead : List Token} (ht : t.kind = .keyword .return_) :
    statement rules ⟨b, t :: ahead, els⟩ = return_ rules ⟨b, t :: ahead, els⟩ := by
  rw [statement, run_bind (run_peekKind _)]
  simp only [Stream.kind_mk, nextKind_cons, ht]

theorem ReadsStmt.return_none :
    ReadsStmt (statement rules) (Stmt.return_ none).lexemes (.return_ none) (.return_ none) := by
  refine .of_reads ?_ rfl fun _ => rfl
  rintro b els ahead rest ⟨t, ahead₁, rfl, ⟨ht, -⟩, u, ahead₂, rfl, ⟨hu, -⟩, rfl⟩ -
  have hu : u.kind = .symbol .semicolon := hu
  refine ⟨.return_ none, some u, ?_, rfl⟩
  rw [run_statement_return ht, Parse.return_, run_bind (run_advance _ _ _ _),
    run_bind (run_peek _)]
  simp only [Stream.next_cons, hu, beq_self_eq_true, Bool.true_or, if_true]
  rw [run_bind (run_semicolon hu)]
  rfl

/-- The value of a return starts on its line, so that the return does not end before it. -/
theorem ReadsStmt.return_some {ls : List Lexeme} {value value' : Expr}
    (h : ReadsAt (Parse.expression rules) Level.assignment ls value') (hstart : StartsAt 1 ls) :
    ReadsStmt (statement rules) (.keyword .return_ :: (onSameLine ls ++ [.mark .semicolon]))
      (.return_ (some value)) (.return_ (some value')) := by
  refine .of_reads ?_ rfl fun _ => rfl
  rintro b els ahead rest ⟨t, ahead₁, rfl, ⟨ht, -⟩, hs⟩ -
  obtain ⟨middle, h₁, u, rest', rfl, ⟨hu, -⟩, rfl⟩ := shows_append.mp hs
  have hu : u.kind = .symbol .semicolon := hu
  obtain ⟨e', b', he, hv⟩ := h (some t) els ahead₁ _ h₁.of_onSameLine
    (by show (nextKind (u :: rest')).joinLevel < _; rw [nextKind_cons, hu]; decide)
  refine ⟨.return_ (some e'), some u, ?_, by simp [Stmt.withoutSpans, exprWithoutSpans?, hv]⟩
  obtain ⟨l, ls, rfl, hl⟩ := hstart
  have hgoes : (((Stream.mk (some t) ahead₁ els).next.kind == .symbol .semicolon) ||
      mayEndStatement (Stream.mk (some t) ahead₁ els).next) = false := by
    obtain ⟨w, ahead₂, rfl, ⟨hw, hline, -⟩, -⟩ := h₁
    have hw : w.kind = l.kind := hw
    simp only [Stream.next_cons, mayEndStatement, hline rfl, hw]
    generalize l.kind = k at hl
    cases k with
    | symbol mark => cases mark <;> first | rfl | exact absurd hl (by decide)
    | endOfInput => exact absurd hl (by decide)
    | _ => rfl
  rw [run_statement_return ht, Parse.return_, run_bind (run_advance _ _ _ _),
    run_bind (run_peek _), hgoes]
  simp only [Bool.false_eq_true, if_false]
  rw [run_bind he, run_bind (run_semicolon hu)]
  rfl

theorem ReadsStmt.block {body : List Stmt} {f : Stmt → Stmt}
    (h : ∀ s ∈ body, ReadsStmt rules.statement s.lexemes s (f s))
    (hfirst : ∀ s ∈ body, StartsLine s) (hapart : linesApart Stmt.goesOn false body = true) :
    ReadsStmt (statement rules) (Stmt.block body).lexemes (.block body)
      (.block ((keptLines false body).map f)) := by
  intro b els ahead rest m hs _ _ hm
  obtain ⟨body', b', els', hp, hv, hlen⟩ := run_block h hfirst hapart b els hs hm
  refine ⟨.block body', b', els', ?_, by simp [Stmt.withoutSpans, stmtsWithoutSpans_eq, hv], hlen⟩
  obtain ⟨t, ahead₁, rfl, ⟨ht, -⟩, -⟩ := hs
  have ht : t.kind = .symbol .leftBrace := ht
  rw [statement, run_bind (run_peekKind _)]
  simp only [Stream.kind_mk, nextKind_cons, ht]
  rw [run_bind hp]
  rfl

/-- What stands in parentheses, and what follows them. -/
theorem shows_parens_append {ls ms : List Lexeme} {ahead rest : List Token}
    (h : Shows (.mark .leftParen :: (ls ++ .mark .rightParen :: ms)) ahead rest) :
    ∃ middle, Shows (.mark .leftParen :: (ls ++ [.mark .rightParen])) ahead middle ∧
      Shows ms middle rest := by
  have hsplit : .mark .leftParen :: (ls ++ .mark .rightParen :: ms) =
      (.mark .leftParen :: (ls ++ [.mark .rightParen])) ++ ms := by simp
  rw [hsplit] at h
  exact shows_append.mp h

theorem ReadsStmt.if_none {ls : List Lexeme} {test test' : Expr} {consequent consequent' : Stmt}
    (htest : ReadsAt rules.expression Level.assignment ls test')
    (h : ReadsStmt rules.statement consequent.lexemes consequent consequent') :
    ReadsStmt (statement rules)
      (.keyword .if_ :: .mark .leftParen :: (ls ++ .mark .rightParen :: consequent.lexemes))
      (.if_ test consequent none) (.if_ test' consequent' none) := by
  rintro b els ahead rest m ⟨t, ahead₁, rfl, ⟨ht, -⟩, hs⟩ helse hend hm
  have ht : t.kind = .keyword .if_ := ht
  obtain ⟨k, hk, hm⟩ := Option.bind_eq_some_iff.mp hm
  obtain rfl : k = m := Option.some.inj hm
  obtain ⟨middle, h₁, h₂⟩ := shows_parens_append hs
  obtain ⟨e', b₁, he, hv⟩ := Reads.parenthesised htest (some t) els ahead₁ _ h₁ trivial
  obtain ⟨s', b', els', hp, hvs, hlen⟩ := h b₁ els middle rest k h₂ (fun _ => helse rfl) hend hk
  refine ⟨.if_ e' s' none, b', els', ?_, by simp [Stmt.withoutSpans, stmtWithoutSpans?, hv, hvs],
    hlen⟩
  rw [statement, run_bind (run_peekKind _)]
  simp only [Stream.kind_mk, nextKind_cons, ht]
  rw [Parse.if_, run_bind (run_advance _ _ _ _), run_bind he, run_bind hp,
    run_bind (run_eat_other (s := ⟨b', dropSemicolon consequent.endsInDecorator rest, els'⟩)
      (helse rfl))]
  rfl

theorem ReadsStmt.if_some {ls : List Lexeme} {test test' : Expr}
    {consequent consequent' alternate alternate' : Stmt}
    (htest : ReadsAt rules.expression Level.assignment ls test')
    (hc : ReadsStmt rules.statement consequent.lexemes consequent consequent')
    (ha : ReadsStmt rules.statement alternate.lexemes alternate alternate')
    (hclosed : consequent.endsOpen = false) :
    ReadsStmt (statement rules)
      (.keyword .if_ :: .mark .leftParen :: (ls ++ .mark .rightParen ::
        (consequent.lexemes ++ .keyword .else_ :: alternate.lexemes)))
      (.if_ test consequent (some alternate)) (.if_ test' consequent' (some alternate')) := by
  rintro b els ahead rest m ⟨t, ahead₁, rfl, ⟨ht, -⟩, hs⟩ helse hend hm
  have ht : t.kind = .keyword .if_ := ht
  obtain ⟨k, hk, hm⟩ := Option.bind_eq_some_iff.mp hm
  obtain ⟨middle, h₁, h₂⟩ := shows_parens_append hs
  obtain ⟨middle₂, h₂, u, ahead₂, rfl, ⟨hu, -⟩, h₃⟩ := shows_append.mp h₂
  have hu : u.kind = .keyword .else_ := hu
  obtain ⟨e', b₁, he, hv⟩ := Reads.parenthesised htest (some t) els ahead₁ _ h₁ trivial
  have hends : EndsCall (u :: ahead₂) := .inl (by rw [nextKind_cons, hu]; rfl)
  obtain ⟨s₁, b₂, els₂, hp₁, hv₁, hlen₁⟩ := hc b₁ els middle _ k h₂ (by simp [hclosed])
    (fun _ => hends) hk
  rw [dropSemicolon_of_ne (by simp [hu])] at hp₁
  obtain ⟨s₂, b₃, els₃, hp₂, hv₂, hlen₂⟩ := ha (some u) els₂ ahead₂ rest m h₃ helse hend (hlen₁ ▸ hm)
  refine ⟨.if_ e' s₁ (some s₂), b₃, els₃, ?_,
    by simp [Stmt.withoutSpans, stmtWithoutSpans?, hv, hv₁, hv₂], hlen₂⟩
  rw [statement, run_bind (run_peekKind _)]
  simp only [Stream.kind_mk, nextKind_cons, ht]
  rw [Parse.if_, run_bind (run_advance _ _ _ _), run_bind he, run_bind hp₁, run_bind (run_eat hu)]
  simp only [if_true]
  rw [run_bind hp₂]
  rfl

theorem ReadsStmt.while_ {ls : List Lexeme} {test test' : Expr} {body body' : Stmt}
    (htest : ReadsAt rules.expression Level.assignment ls test')
    (h : ReadsStmt rules.statement body.lexemes body body') :
    ReadsStmt (statement rules)
      (.keyword .while_ :: .mark .leftParen :: (ls ++ .mark .rightParen :: body.lexemes))
      (.while_ test body) (.while_ test' body') := by
  rintro b els ahead rest m ⟨t, ahead₁, rfl, ⟨ht, -⟩, hs⟩ helse hend hm
  have ht : t.kind = .keyword .while_ := ht
  obtain ⟨middle, h₁, h₂⟩ := shows_parens_append hs
  obtain ⟨e', b₁, he, hv⟩ := Reads.parenthesised htest (some t) els ahead₁ _ h₁ trivial
  obtain ⟨s', b', els', hp, hvs, hlen⟩ := h b₁ els middle rest m h₂ helse hend hm
  refine ⟨.while_ e' s', b', els', ?_, by simp [Stmt.withoutSpans, hv, hvs], hlen⟩
  rw [statement, run_bind (run_peekKind _)]
  simp only [Stream.kind_mk, nextKind_cons, ht]
  rw [Parse.while_, run_bind (run_advance _ _ _ _), run_bind he, run_bind hp]
  rfl

/-- Where an expression starts, neither a mark that ends it comes nor a word that declares
variables. -/
theorem starts_ne {l : Lexeme} {ls : List Lexeme} {ahead rest : List Token}
    (hs : Shows (l :: ls) ahead rest) (hl : 1 ≤ l.kind.startLevel) :
    nextKind ahead ≠ .symbol .semicolon ∧ nextKind ahead ≠ .symbol .rightParen ∧
      VariableKind.ofKind? (nextKind ahead) = none := by
  rw [hs.nextKind]
  generalize l.kind = k at hl
  cases k with
  | symbol mark => cases mark <;> first | exact absurd hl (by decide) | exact ⟨nofun, nofun, rfl⟩
  | keyword word => cases word <;> first | exact absurd hl (by decide) | exact ⟨nofun, nofun, rfl⟩
  | _ => exact ⟨nofun, nofun, rfl⟩

theorem Reads.expressionBefore {stop : Symbol} (hstop : stop = .semicolon ∨ stop = .rightParen)
    {e : Option Expr} {f : Expr → Expr}
    (h : ∀ x ∈ e, ReadsAt (Parse.expression rules) Level.assignment x.lexemes (f x) ∧
      StartsAt 1 x.lexemes) :
    Reads (expressionBefore rules stop) (forPartLexemes e) (· = .symbol stop) exprWithoutSpans?
      (exprWithoutSpans? (e.map f)) := by
  intro b els ahead rest hs hrest
  cases e with
  | none =>
    obtain rfl : ahead = rest := hs
    refine ⟨none, b, ?_, rfl⟩
    rw [Parse.expressionBefore, run_bind (run_check _ _)]
    simp [hrest]
  | some e =>
    simp only [forPartLexemes, Expr.lexemesInPlace_any] at hs
    obtain ⟨hread, l, ls, hl, hstart⟩ := h e rfl
    obtain ⟨e', b', he, hv⟩ := hread b els ahead rest hs
      (by rw [hrest]; rcases hstop with rfl | rfl <;> decide)
    rw [hl] at hs
    obtain ⟨h₁, h₂, -⟩ := starts_ne hs hstart
    have hcheck : ((Stream.mk b ahead els).kind == .symbol stop) = false := by
      rcases hstop with rfl | rfl
      · simpa using h₁
      · simpa using h₂
    refine ⟨some e', b', ?_, by simp [exprWithoutSpans?, hv]⟩
    rw [Parse.expressionBefore, run_bind (run_check _ _), hcheck]
    simp only [Bool.false_eq_true, if_false]
    rw [run_bind he]
    rfl

theorem Reads.forInit_declaration {kind : VariableKind} {ds : List Declarator} {f : Expr → Expr}
    (hds : ds ≠ []) (hwf : ∀ d ∈ ds, IsIdentifier d.name)
    (h : ∀ d ∈ ds, ∀ e ∈ d.init,
      ReadsAt (Parse.expression rules) Level.assignment e.lexemes (f e)) :
    Reads (forInit rules) (forInitLexemes (some (.declaration kind ds))) (· = .symbol .semicolon)
      stmtWithoutSpans? (stmtWithoutSpans?
        (some (.declaration kind (ds.map fun d => { d with init := d.init.map f })))) := by
  intro b els ahead rest hs hrest
  obtain ⟨s', b', hp, hv⟩ := Reads.declaration hds hwf h b els ahead rest hs hrest
  have hk : nextKind ahead = .keyword kind.keyword := by
    obtain ⟨t, ahead₁, rfl, ⟨ht, -⟩, -⟩ := hs
    exact ht
  have hsemi : ((Stream.mk b ahead els).kind == .symbol .semicolon) = false := by simp [hk]
  have hsome : VariableKind.ofKind? (Stream.mk b ahead els).kind = some kind := by
    rw [Stream.kind_mk, hk]
    cases kind <;> rfl
  refine ⟨some s', b', ?_, by simp [stmtWithoutSpans?, hv]⟩
  rw [forInit, run_bind (run_peekKind _)]
  simp only [hsemi, Bool.false_eq_true, if_false, hsome]
  rw [run_bind hp]
  rfl

theorem Reads.forInit_expression {value value' : Expr}
    (h : ReadsAt (Parse.expression rules) Level.assignment value.lexemes value')
    (hstart : StartsAt 1 value.lexemes) :
    Reads (forInit rules) (forInitLexemes (some (.expression value))) (· = .symbol .semicolon)
      stmtWithoutSpans? (stmtWithoutSpans? (some (.expression value'))) := by
  intro b els ahead rest hs hrest
  simp only [forInitLexemes, Expr.lexemesInPlace_any] at hs
  obtain ⟨e', b', he, hv⟩ := h b els ahead rest hs (by rw [hrest]; decide)
  obtain ⟨l, ls, hl, hstart⟩ := hstart
  rw [hl] at hs
  obtain ⟨hsemi, -, hnone⟩ := starts_ne hs hstart
  have hsemi : ((Stream.mk b ahead els).kind == .symbol .semicolon) = false := by simpa using hsemi
  have hnone : VariableKind.ofKind? (Stream.mk b ahead els).kind = none := hnone
  refine ⟨some (.expression e'), b', ?_, by simp [stmtWithoutSpans?, Stmt.withoutSpans, hv]⟩
  rw [forInit, run_bind (run_peekKind _)]
  simp only [hsemi, Bool.false_eq_true, if_false, hnone]
  rw [run_bind he]
  rfl

theorem Reads.forInit_none :
    Reads (forInit rules) (forInitLexemes none) (· = .symbol .semicolon) stmtWithoutSpans? none := by
  rintro b els ahead rest hs hrest
  obtain rfl : ahead = rest := hs
  refine ⟨none, b, ?_, rfl⟩
  rw [forInit, run_bind (run_peekKind _)]
  simp [hrest]

theorem ReadsStmt.for_ {init init' : Option Stmt} {test update : Option Expr} {f : Expr → Expr}
    {body body' : Stmt}
    (hinit : Reads (forInit rules) (forInitLexemes init) (· = .symbol .semicolon)
      stmtWithoutSpans? (stmtWithoutSpans? init'))
    (htest : ∀ x ∈ test, ReadsAt (Parse.expression rules) Level.assignment x.lexemes (f x) ∧
      StartsAt 1 x.lexemes)
    (hupdate : ∀ x ∈ update, ReadsAt (Parse.expression rules) Level.assignment x.lexemes (f x) ∧
      StartsAt 1 x.lexemes)
    (h : ReadsStmt rules.statement body.lexemes body body') :
    ReadsStmt (statement rules) (Stmt.for_ init test update body).lexemes
      (.for_ init test update body) (.for_ init' (test.map f) (update.map f) body') := by
  intro b els ahead rest m hs helse hend hm
  simp only [Stmt.lexemes, List.cons_append, List.append_assoc] at hs
  obtain ⟨t, ahead₁, rfl, ⟨ht, -⟩, u, ahead₂, rfl, ⟨hu, -⟩, hs⟩ := hs
  obtain ⟨_, h₁, v, ahead₃, rfl, ⟨hv, -⟩, hs⟩ := shows_append.mp hs
  obtain ⟨_, h₂, w, ahead₄, rfl, ⟨hw, -⟩, hs⟩ := shows_append.mp hs
  obtain ⟨_, h₃, x, ahead₅, rfl, ⟨hx, -⟩, h₄⟩ := shows_append.mp hs
  have ht : t.kind = .keyword .for_ := ht
  obtain ⟨r₁, b₁, hp₁, hv₁⟩ := hinit (some u) els ahead₂ _ h₁ hv
  obtain ⟨r₂, b₂, hp₂, hv₂⟩ := Reads.expressionBefore (.inl rfl) htest (some v) els ahead₃ _ h₂ hw
  obtain ⟨r₃, b₃, hp₃, hv₃⟩ :=
    Reads.expressionBefore (.inr rfl) hupdate (some w) els ahead₄ _ h₃ hx
  obtain ⟨s', b', els', hp, hvs, hlen⟩ := h (some x) els ahead₅ rest m h₄ helse hend hm
  refine ⟨.for_ r₁ r₂ r₃ s', b', els', ?_,
    by simp [Stmt.withoutSpans, hv₁, hv₂, hv₃, hvs], hlen⟩
  rw [statement, run_bind (run_peekKind _)]
  simp only [Stream.kind_mk, nextKind_cons, ht]
  rw [Parse.for_, run_bind (run_advance _ _ _ _), run_bind (run_expectSymbol hu), run_bind hp₁,
    run_bind (run_expectSymbol hv), run_bind hp₂, run_bind (run_expectSymbol hw), run_bind hp₃,
    run_bind (run_expectSymbol hx), run_bind hp]
  rfl

/-! ### Imports -/

theorem Reads.importSpecifier {s : ImportSpecifier} (hwf : s.WellFormed) :
    Reads importSpecifier s.lexemes (fun k => k = .symbol .comma ∨ k = .symbol .rightBrace) id
      s := by
  obtain ⟨imported, localName⟩ := s
  intro b els ahead rest hs hstop
  unfold ImportSpecifier.lexemes at hs
  by_cases heq : imported = localName
  · subst heq
    simp only [if_true] at hs
    obtain ⟨t, ahead', rfl, ⟨ht, -⟩, rfl⟩ := hs
    have ht : t.kind.word? = some imported := by rw [ht]; exact word?_ofWord imported
    have has : (Stream.mk (some t) ahead' els).kind ≠ .identifier "as" := by
      rcases hstop with h | h <;> simp [h]
    refine ⟨⟨imported, imported⟩, some t, ?_, rfl⟩
    rw [Parse.importSpecifier, run_bind (run_word ht), eatWord, run_bind (run_eat_other has)]
    rfl
  · simp only [heq, if_false] at hs
    obtain ⟨t, ahead₁, rfl, ⟨ht, -⟩, u, ahead₂, rfl, ⟨hu, -⟩, v, ahead₃, rfl, ⟨hv, -⟩, rfl⟩ := hs
    have ht : t.kind.word? = some imported := by rw [ht]; exact word?_ofWord imported
    have hu : u.kind = .identifier "as" := hu
    have hlocal : IsIdentifier localName := hwf.2.resolve_left heq
    refine ⟨⟨imported, localName⟩, some v, ?_, rfl⟩
    rw [Parse.importSpecifier, run_bind (run_word ht), eatWord, run_bind (run_eat hu)]
    simp only [if_true]
    rw [run_bind (run_identifier (hv.trans hlocal.2))]
    rfl

/-- The lexemes of imported names in braces. -/
def specifierLexemes (specifiers : List ImportSpecifier) : List Lexeme :=
  .mark .leftBrace :: (commaLexemes (specifiers.map ImportSpecifier.lexemes) ++ [.mark .rightBrace])

theorem Reads.importSpecifiers {specifiers : List ImportSpecifier}
    (hwf : ∀ s ∈ specifiers, s.WellFormed) :
    Reads importSpecifiers (specifierLexemes specifiers) (fun _ => True) id specifiers := by
  have hword : ∀ x : String, Kind.ofWord x ≠ .symbol .rightBrace := by
    intro x h
    have := word?_ofWord x
    simp [h, Kind.word?] at this
  have hlist := Reads.commaList (v := id) isCloser_rightBrace.1 specifiers
    (fun s hs => Reads.importSpecifier (hwf s hs)) fun s _ => by
      unfold ImportSpecifier.lexemes
      split
      · exact ⟨_, _, rfl, hword _⟩
      · exact ⟨_, _, rfl, hword _⟩
  simp only [List.map_id_fun] at hlist
  exact hlist.afterMark

theorem run_importSource (defaultName : Option String) (specifiers : List ImportSpecifier)
    {source : String} (b : Option Token) (els : List String) {ahead rest : List Token}
    (hs : Shows [.word "from", .string source, .mark .semicolon] ahead rest) :
    ∃ b', importSource defaultName specifiers ⟨b, ahead, els⟩ =
      .ok (.import_ defaultName specifiers source) ⟨b', rest, els⟩ := by
  obtain ⟨t, ahead₁, rfl, ⟨ht, -⟩, u, ahead₂, rfl, ⟨hu, -⟩, v, ahead₃, rfl, ⟨hv, -⟩, rfl⟩ := hs
  have ht : t.kind = .identifier "from" := ht
  have hu : u.kind = .string source := hu
  refine ⟨some v, ?_⟩
  rw [importSource, eatWord, run_bind (run_eat ht)]
  simp only [if_true]
  rw [run_bind (run_peekKind _)]
  simp only [Stream.kind_mk, nextKind_cons, hu]
  rw [run_bind (run_advance _ _ _ _), run_bind (run_semicolon hv)]
  rfl

theorem run_statement_import {b : Option Token} {els : List String} {t : Token}
    {ahead : List Token} (ht : t.kind = .keyword .import_) :
    statement rules ⟨b, t :: ahead, els⟩ = import_ ⟨b, t :: ahead, els⟩ := by
  rw [statement, run_bind (run_peekKind _)]
  simp only [Stream.kind_mk, nextKind_cons, ht]

theorem ReadsStmt.import_ {defaultName : Option String} {specifiers : List ImportSpecifier}
    {source : String} (hdefault : ∀ x ∈ defaultName, IsIdentifier x)
    (hspecifiers : ∀ s ∈ specifiers, s.WellFormed) :
    ReadsStmt (statement rules) (Stmt.import_ defaultName specifiers source).lexemes
      (.import_ defaultName specifiers source) (.import_ defaultName specifiers source) := by
  refine .of_reads ?_ rfl fun _ => rfl
  intro b els ahead rest hs _
  suffices h : ∃ b', statement rules ⟨b, ahead, els⟩ =
      .ok (.import_ defaultName specifiers source) ⟨b', rest, els⟩ by
    obtain ⟨b', hp⟩ := h
    exact ⟨_, b', hp, rfl⟩
  cases defaultName with
  | none =>
    cases specifiers with
    | nil =>
      obtain ⟨t, ahead₁, rfl, ⟨ht, -⟩, u, ahead₂, rfl, ⟨hu, -⟩, v, ahead₃, rfl, ⟨hv, -⟩, rfl⟩ := hs
      have hu : u.kind = .string source := hu
      refine ⟨some v, ?_⟩
      rw [run_statement_import ht, Parse.import_, run_bind (run_advance _ _ _ _),
        run_bind (run_peekKind _)]
      simp only [Stream.kind_mk, nextKind_cons, hu]
      rw [run_bind (run_advance _ _ _ _), run_bind (run_semicolon hv)]
      rfl
    | cons s specifiers =>
      obtain ⟨t, ahead₁, rfl, ⟨ht, -⟩, hs⟩ := hs
      obtain ⟨middle, h₁, h₂⟩ := shows_append.mp hs
      obtain ⟨specifiers', b₁, hp, rfl⟩ :=
        Reads.importSpecifiers hspecifiers (some t) els ahead₁ middle h₁ trivial
      obtain ⟨b', hp'⟩ :=
        run_importSource none (s :: specifiers) b₁ els h₂
      have hk : nextKind ahead₁ = .symbol .leftBrace := h₁.nextKind
      refine ⟨b', ?_⟩
      rw [run_statement_import ht, Parse.import_, run_bind (run_advance _ _ _ _),
        run_bind (run_peekKind _)]
      simp only [Stream.kind_mk, hk]
      rw [run_bind hp]
      exact hp'
  | some x =>
    cases specifiers with
    | nil =>
      obtain ⟨t, ahead₁, rfl, ⟨ht, -⟩, u, ahead₂, rfl, ⟨hu, -⟩, hs⟩ := hs
      have hu : u.kind = .identifier x := hu.trans (hdefault x rfl).2
      obtain ⟨b', hp⟩ := run_importSource (some x) [] (some u) els hs
      have hcomma : (Stream.mk (some u) ahead₂ els).kind ≠ .symbol .comma := by
        rw [Stream.kind_mk, hs.nextKind]
        nofun
      refine ⟨b', ?_⟩
      rw [run_statement_import ht, Parse.import_, run_bind (run_advance _ _ _ _),
        run_bind (run_peekKind _)]
      simp only [Stream.kind_mk, nextKind_cons, hu]
      rw [run_bind (run_advance _ _ _ _), run_bind (run_eat_other hcomma)]
      exact hp
    | cons s specifiers =>
      obtain ⟨t, ahead₁, rfl, ⟨ht, -⟩, u, ahead₂, rfl, ⟨hu, -⟩, v, ahead₃, rfl, ⟨hv, -⟩, hs⟩ := hs
      have hu : u.kind = .identifier x := hu.trans (hdefault x rfl).2
      have hv : v.kind = .symbol .comma := hv
      obtain ⟨middle, h₁, h₂⟩ := shows_append.mp hs
      obtain ⟨specifiers', b₁, hp, rfl⟩ :=
        Reads.importSpecifiers hspecifiers (some v) els ahead₃ middle h₁ trivial
      obtain ⟨b', hp'⟩ :=
        run_importSource (some x) (s :: specifiers) b₁ els h₂
      refine ⟨b', ?_⟩
      rw [run_statement_import ht, Parse.import_, run_bind (run_advance _ _ _ _),
        run_bind (run_peekKind _)]
      simp only [Stream.kind_mk, nextKind_cons, hu]
      rw [run_bind (run_advance _ _ _ _), run_bind (run_eat hv)]
      simp only [if_true]
      rw [run_bind hp]
      exact hp'

/-! ### Markup -/

theorem Reads.tagAttribute {a : Attribute} {f : Expr → Expr}
    (h : ∀ x e, a = .braced x e → ReadsAt rules.expression Level.assignment e.lexemes (f e)) :
    Reads (tagAttribute rules) a.lexemes (· ≠ .symbol .assign) Attribute.withoutSpans
      (a.mapValue f).withoutSpans := by
  intro b els ahead rest hs hstop
  cases a with
  | bare name =>
    obtain ⟨t, ahead₁, rfl, ⟨ht, -⟩, rfl⟩ := hs
    refine ⟨.bare name, some t, ?_, rfl⟩
    rw [Parse.tagAttribute, run_bind (run_name ht),
      run_bind (run_eat_other (s := ⟨some t, ahead₁, els⟩) hstop)]
    rfl
  | text name value =>
    obtain ⟨t, ahead₁, rfl, ⟨ht, -⟩, u, ahead₂, rfl, ⟨hu, -⟩, v, ahead₃, rfl, ⟨hv, -⟩, rfl⟩ := hs
    have hu : u.kind = .symbol .assign := hu
    have hv : v.kind = .string value := hv
    refine ⟨.text name value, some v, ?_, rfl⟩
    rw [Parse.tagAttribute, run_bind (run_name ht), run_bind (run_eat hu)]
    simp only [if_true]
    rw [run_bind (run_peekKind _)]
    simp only [Stream.kind_mk, nextKind_cons, hv]
    rw [run_bind (run_advance _ _ _ _)]
    rfl
  | braced name value =>
    obtain ⟨t, ahead₁, rfl, ⟨ht, -⟩, u, ahead₂, rfl, ⟨hu, -⟩, v, ahead₃, rfl, ⟨hv, -⟩, hs⟩ := hs
    obtain ⟨middle, h₁, w, ahead₄, rfl, ⟨hw, -⟩, rfl⟩ := shows_append.mp hs
    have hu : u.kind = .symbol .assign := hu
    have hv : v.kind = .symbol .leftBrace := hv
    have hw : w.kind = .symbol .rightBrace := hw
    obtain ⟨e', b', he, hv'⟩ := h name value rfl (some v) els ahead₃ _ h₁
      (by show (nextKind (w :: ahead₄)).joinLevel < _; rw [nextKind_cons, hw]; decide)
    refine ⟨.braced name e', some w, ?_, by simp [Attribute.mapValue, Attribute.withoutSpans, hv']⟩
    rw [Parse.tagAttribute, run_bind (run_name ht), run_bind (run_eat hu)]
    simp only [if_true]
    rw [run_bind (run_peekKind _)]
    simp only [Stream.kind_mk, nextKind_cons, hv]
    rw [run_bind (run_advance _ _ _ _), run_bind he, run_bind (run_expectSymbol hw)]
    rfl

theorem Reads.attributes {as : List Attribute} {f : Expr → Expr}
    (h : ∀ x e, .braced x e ∈ as → ReadsAt rules.expression Level.assignment e.lexemes (f e)) :
    Reads (Parse.itemsWhile (fun k => k != .symbol .tagEnd && k != .symbol .slash)
        (Parse.tagAttribute rules)) (attributesLexemes as)
      (fun k => k = .symbol .tagEnd ∨ k = .symbol .slash) (List.map Attribute.withoutSpans)
      ((as.map (Attribute.mapValue f)).map Attribute.withoutSpans) := by
  rw [attributesLexemes_eq, List.map_map]
  refine (Reads.itemsWhile (· ≠ .symbol .assign) as
    (fun a ha => Reads.tagAttribute fun x e hae => h x e (hae ▸ ha)) fun a _ => ?_).of_stop ?_
  · cases a <;> exact ⟨_, _, rfl, rfl, nofun⟩
  · rintro k (rfl | rfl) <;> exact ⟨rfl, nofun⟩

theorem run_statement_tag {b : Option Token} {els : List String} {t : Token} {ahead : List Token}
    (ht : t.kind = .symbol .tagStart) :
    statement rules ⟨b, t :: ahead, els⟩ = tag rules ⟨b, t :: ahead, els⟩ := by
  rw [statement, run_bind (run_peekKind _)]
  simp only [Stream.kind_mk, nextKind_cons, ht]

theorem run_tag_name {b : Option Token} {els : List String} {t u : Token} {name : String}
    {ahead : List Token} (ht : t.kind = .symbol .tagStart) (hu : u.kind = .name name) :
    statement rules ⟨b, t :: u :: ahead, els⟩ =
      startTag rules t.span name ⟨some u, ahead, els⟩ := by
  rw [run_statement_tag ht, tag, run_bind (run_peek _), run_bind (run_expectSymbol ht),
    run_bind (run_peekKind _)]
  simp only [Stream.kind_mk, nextKind_cons, hu]
  rw [run_bind (run_advance _ _ _ _)]
  rfl

theorem ReadsStmt.elementStart {name : String} {as : List Attribute} {f : Expr → Expr}
    {span : Span}
    (h : ∀ x e, .braced x e ∈ as → ReadsAt rules.expression Level.assignment e.lexemes (f e)) :
    ReadsStmt (statement rules) (Stmt.elementStart name as span).lexemes
      (.elementStart name as span) (.elementStart name (as.map (Attribute.mapValue f)) span) := by
  intro b els ahead rest m hs _ _ hm
  obtain ⟨t, ahead₁, rfl, ⟨ht, -⟩, u, ahead₂, rfl, ⟨hu, -⟩, hs⟩ := hs
  obtain ⟨middle, h₁, v, rest', rfl, ⟨hv, -⟩, rfl⟩ := shows_append.mp hs
  have hv : v.kind = .symbol .tagEnd := hv
  obtain ⟨as', b₁, hp, hvs⟩ := Reads.attributes h (some u) els ahead₂ _ h₁ (.inl hv)
  refine ⟨.elementStart name as' (spanTo t.span (some v)), some v, name :: els, ?_,
    by simp [Stmt.withoutSpans, attributesWithoutSpans_eq, hvs], Option.some.inj hm⟩
  rw [run_tag_name ht hu, startTag, run_bind hp, run_bind (run_eat_other (by simp [hv]))]
  simp only [Bool.false_eq_true, if_false]
  rw [run_bind (run_expectSymbol hv)]
  rfl

theorem ReadsStmt.element {name : String} {as : List Attribute} {f : Expr → Expr} {span : Span}
    (h : ∀ x e, .braced x e ∈ as → ReadsAt rules.expression Level.assignment e.lexemes (f e)) :
    ReadsStmt (statement rules) (Stmt.element name as span).lexemes (.element name as span)
      (.element name (as.map (Attribute.mapValue f)) span) := by
  refine .of_reads (fun b els ahead rest hs _ => ?_) rfl fun _ => rfl
  obtain ⟨t, ahead₁, rfl, ⟨ht, -⟩, u, ahead₂, rfl, ⟨hu, -⟩, hs⟩ := hs
  obtain ⟨middle, h₁, v, ahead₃, rfl, ⟨hv, -⟩, w, rest', rfl, ⟨hw, -⟩, rfl⟩ := shows_append.mp hs
  have hv : v.kind = .symbol .slash := hv
  obtain ⟨as', b₁, hp, hvs⟩ := Reads.attributes h (some u) els ahead₂ _ h₁ (.inr hv)
  refine ⟨.element name as' (spanTo t.span (some w)), some w, ?_,
    by simp [Stmt.withoutSpans, attributesWithoutSpans_eq, hvs]⟩
  rw [run_tag_name ht hu, startTag, run_bind hp, run_bind (run_eat hv)]
  simp only [if_true]
  rw [run_bind (run_expectSymbol hw)]
  rfl

theorem ReadsStmt.elementEnd {name : String} {span : Span} :
    ReadsStmt (statement rules) (Stmt.elementEnd name span).lexemes (.elementEnd name span)
      (.elementEnd name span) := by
  intro b els ahead rest m hs _ _ hm
  obtain ⟨t, ahead₁, rfl, ⟨ht, -⟩, u, ahead₂, rfl, ⟨hu, -⟩, v, ahead₃, rfl, ⟨hv, -⟩,
    w, ahead₄, rfl, ⟨hw, -⟩, rfl⟩ := hs
  have hu : u.kind = .symbol .slash := hu
  cases els with
  | nil => cases hm
  | cons open_ els =>
    refine ⟨.elementEnd name (spanTo t.span (some w)), some w, els, ?_, rfl, Option.some.inj hm⟩
    rw [run_statement_tag ht, tag, run_bind (run_peek _), run_bind (run_expectSymbol ht),
      run_bind (run_peekKind _)]
    simp only [Stream.kind_mk, nextKind_cons, hu]
    rw [run_bind (run_advance _ _ _ _), endTag, run_bind (run_name hv),
      run_bind (run_expectSymbol hw)]
    rfl

/-! ### Decorators -/

/-- The parser reads the lexemes as a call, up to spans, if what follows does not go on with it. -/
def ReadsCall (p : Parse Expr) (ls : List Lexeme) (e : Expr) : Prop :=
  ∀ b els ahead rest, Shows ls ahead rest → EndsCall rest →
    ∃ e' b', p ⟨b, ahead, els⟩ = .ok e' ⟨b', rest, els⟩ ∧ e'.withoutSpans = e.withoutSpans

theorem ReadsCall.of_chain {ls : List Lexeme} {e : Expr} (h : ReadsChain rules ls e)
    (hno : NoArrow ls) (hstart : StartsAt Level.call ls) :
    ReadsCall (Parse.expression rules) ls e := by
  intro b els ahead rest hs hend
  obtain ⟨l, ls, rfl, hl⟩ := hstart
  obtain ⟨start, n, e', b', hn, hc, hv⟩ := h b els ahead rest hs
  have hstop : (Stream.mk b' rest els).kind.joinLevel < Level.call := hend.joinLevel_lt
  rw [run_chain_stop (by omega) hstop] at hc
  have hpostfixed : postfixed rules ⟨b, ahead, els⟩ = .ok e' ⟨b', rest, els⟩ := by
    rcases hend with h | ⟨-, hline⟩
    · exact run_postfixed_stop hc (by rw [Stream.kind_mk, h]; decide)
    · have hline : (Stream.mk b' rest els).next.newlineBefore = true := hline
      rw [postfixed, run_bind (run_peek _), run_bind hc, run_bind (run_peek _), if_pos hline]
      rfl
  have hfront : isOperatorInFront (Stream.mk b ahead els).kind = false := by
    simpa [hs.nextKind] using isOperatorInFront_of_startLevel hl
  have hbinary : Parse.binary rules 0 ⟨b, ahead, els⟩ = .ok e' ⟨b', rest, els⟩ := by
    rw [Parse.binary, run_climb (by decide) ((run_operand_postfixed hfront).trans hpostfixed)]
    exact run_operators_end (by omega) fun op hop => by simp [hend.ofKind?_eq_none] at hop
  have hconditional : conditional rules ⟨b, ahead, els⟩ = .ok e' ⟨b', rest, els⟩ :=
    run_conditional_stop hbinary (hend.joinLevel_ne (by decide) (by decide))
  have hassign : (nextKind rest).joinLevel ≠ Level.assignment :=
    hend.joinLevel_ne (by decide) (by decide)
  have harrow : nextKind rest ≠ .symbol .arrow := by
    intro harrow
    rw [harrow] at hassign
    exact hassign rfl
  exact ⟨e', b', run_expression_stop (hno b els ahead rest hs harrow) hconditional hassign, hv⟩

/-- What is a call of a name without its spans spells a decorator. -/
theorem decoratorParts?_of_withoutSpans {e : Expr} {name : String} {es : List Expr} {s s' : Span}
    (h : e.withoutSpans = (Expr.call (.identifier name s) es s').withoutSpans) :
    ∃ es', decoratorParts? e = some (name, es') ∧
      es'.map Expr.withoutSpans = es.map Expr.withoutSpans := by
  cases e with
  | call callee es' _ =>
    simp only [Expr.withoutSpans, Expr.call.injEq, and_true] at h
    obtain ⟨hcallee, hes⟩ := h
    rw [exprsWithoutSpans_eq, exprsWithoutSpans_eq] at hes
    cases callee with
    | identifier x _ =>
      simp only [Expr.withoutSpans, Expr.identifier.injEq, and_true] at hcallee
      exact ⟨es', by rw [hcallee]; rfl, hes⟩
    | _ => cases hcallee
  | _ => cases h

/-- A decorator takes a semicolon, if one follows. -/
theorem run_eat_semicolon (b : Option Token) (rest : List Token) (els : List String) :
    ∃ eaten b', eat (.symbol .semicolon) ⟨b, rest, els⟩ =
      .ok eaten ⟨b', dropSemicolon true rest, els⟩ := by
  by_cases hsemi : nextKind rest = .symbol .semicolon
  · cases rest with
    | nil => cases hsemi
    | cons t rest =>
      have hdrop : dropSemicolon true (t :: rest) = rest := by simp [dropSemicolon, hsemi]
      rw [hdrop]
      exact ⟨true, some t, run_eat hsemi⟩
  · rw [dropSemicolon_of_ne hsemi]
    exact ⟨false, b, run_eat_other hsemi⟩

theorem ReadsStmt.decorator {ls : List Lexeme} {d : Decorator} {name : String} {es : List Expr}
    {s s' span : Span} (h : ReadsCall rules.expression ls (.call (.identifier name s) es s')) :
    ReadsStmt (statement rules) (.mark .decorator :: ls) (.decorator d)
      (.decorator ⟨name, es, span⟩) := by
  rintro b els ahead rest m ⟨t, ahead₁, rfl, ⟨ht, -⟩, hs⟩ _ hend hm
  have ht : t.kind = .symbol .decorator := ht
  obtain ⟨e, b₁, he, hv⟩ := h (some t) els ahead₁ rest hs (hend rfl)
  obtain ⟨es', hparts, hes⟩ := decoratorParts?_of_withoutSpans hv
  obtain ⟨eaten, b', heat⟩ := run_eat_semicolon b₁ rest els
  refine ⟨.decorator ⟨name, es', spanTo t.span b'⟩, b', els, ?_,
    by simp [Stmt.withoutSpans, Decorator.withoutSpans, exprsWithoutSpans_eq, hes],
    Option.some.inj hm⟩
  rw [statement, run_bind (run_peekKind _)]
  simp only [Stream.kind_mk, nextKind_cons, ht]
  rw [Parse.decorator, run_bind (run_peek _), run_bind (run_expectSymbol ht), run_bind he, hparts]
  simp only
  rw [run_bind heat, run_bind (run_spanFrom _ _)]
  rfl

end Parse

end MarkupScript
