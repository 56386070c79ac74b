import MarkupScript.Proofs.Parse.Expressions
import MarkupScript.Proofs.Print.DecoratorLines

/-!
# Reading lines

Statements stand on lines of their own and are read one after the other. A statement may change how
many elements are open, an `if` without `else` must not be followed by one, and a decorator takes a
semicolon that follows it, so that what is read depends on the stream in more ways than for
expressions.
-/

namespace MarkupScript

namespace Parse

variable {rules : Rules}

/-! ### Statements -/

/-- What follows a call does not go on with it. An update operator does not if it stands on a new
line. -/
def EndsCall (rest : List Token) : Prop :=
  (nextKind rest).joinLevel = 0 ∨
    (nextKind rest).joinLevel = Level.afterOperand ∧ (rest.head?.getD .past).newlineBefore = true

/-- What ends a call is no operator and no arrow. -/
theorem EndsCall.joinLevel_ne {rest : List Token} (h : EndsCall rest) {level : Nat}
    (hlevel : 0 < level) (hne : level ≠ Level.afterOperand) :
    (nextKind rest).joinLevel ≠ level := by
  rcases h with h | ⟨h, -⟩ <;> omega

theorem EndsCall.joinLevel_lt {rest : List Token} (h : EndsCall rest) :
    (nextKind rest).joinLevel < Level.call := by
  rcases h with h | ⟨h, -⟩ <;> rw [h] <;> decide

theorem EndsCall.ofKind?_eq_none {rest : List Token} (h : EndsCall rest) :
    BinaryOp.ofKind? (nextKind rest) = none := by
  cases hop : BinaryOp.ofKind? (nextKind rest) with
  | none => rfl
  | some op =>
    have hbounds := op.precedence_bounds
    refine absurd (BinaryOp.joinLevel_of_ofKind? hop) (h.joinLevel_ne ?_ ?_) <;>
      simp only [Level.binary, Level.conditional, Level.afterOperand] <;> omega

/-- What follows a semicolon, if there is one and it is taken. -/
def dropSemicolon (takes : Bool) (rest : List Token) : List Token :=
  if takes && nextKind rest == .symbol .semicolon then rest.tail else rest

theorem dropSemicolon_of_ne {takes : Bool} {rest : List Token}
    (h : nextKind rest ≠ .symbol .semicolon) : dropSemicolon takes rest = rest := by
  simp [dropSemicolon, h]

@[simp] theorem dropSemicolon_false (rest : List Token) : dropSemicolon false rest = rest := by
  simp [dropSemicolon]

/-- The semicolon of an empty statement is one to drop. -/
theorem dropSemicolon_empty {ahead rest : List Token} (h : Shows Stmt.empty.lexemes ahead rest) :
    dropSemicolon true ahead = rest := by
  obtain ⟨t, middle, rfl, ⟨ht, -⟩, rfl⟩ := h
  have ht : t.kind = .symbol .semicolon := ht
  simp [dropSemicolon, ht]

/-- The parser takes the lexemes of the statement `s`, reads them as the statement `s'` up to spans,
and leaves as many elements open as `s` does. -/
def ReadsStmt (p : Parse Stmt) (ls : List Lexeme) (s s' : Stmt) : Prop :=
  ∀ b els ahead rest m, Shows ls ahead rest →
    (s.endsOpen = true → nextKind (dropSemicolon s.endsInDecorator rest) ≠ .keyword .else_) →
    (s.endsInDecorator = true → EndsCall rest) → s.elementsAfter els.length = some m →
    ∃ r b' els', p ⟨b, ahead, els⟩ = .ok r ⟨b', dropSemicolon s.endsInDecorator rest, els'⟩ ∧
      r.withoutSpans = s'.withoutSpans ∧ els'.length = m

/-- A statement without tags and decorators of its own leaves the open elements as they are. -/
theorem ReadsStmt.of_reads {p : Parse Stmt} {ls : List Lexeme} {s s' : Stmt}
    (h : Reads p ls (fun _ => True) Stmt.withoutSpans s'.withoutSpans)
    (hend : s.endsInDecorator = false) (helements : ∀ n, s.elementsAfter n = some n) :
    ReadsStmt p ls s s' := by
  intro b els ahead rest m hs _ _ hm
  obtain ⟨r, b', hp, hv⟩ := h b els ahead rest hs trivial
  rw [helements] at hm
  rw [hend, dropSemicolon_false]
  exact ⟨r, b', els, hp, hv, Option.some.inj hm⟩

/-! ### Lists of statements -/

/-- A kind of token that can stand in front of a statement: none that ends a list of them, no
`else`, and none that goes on with an operand other than `(`, `[`, `+`, `-`, `++` and `--`. -/
def Kind.CanStart (k : Kind) : Prop :=
  k ≠ .keyword .else_ ∧ k ≠ .symbol .rightBrace ∧ k ≠ .endOfInput ∧
    (k.goesOn = true ∨ k.joinLevel = 0 ∨ k.joinLevel = Level.afterOperand)

instance : DecidablePred Kind.CanStart := fun _ => inferInstanceAs (Decidable (_ ∧ _ ∧ _ ∧ _))

/-- A statement starts with a token that can stand there, and with a semicolon only if it is
empty. -/
def StartsLine (s : Stmt) : Prop :=
  ∃ l ls, s.lexemes = l :: ls ∧ Kind.CanStart l.kind ∧
    (l.kind = .symbol .semicolon → s.isEmpty = true)

theorem StartsLine.of_lexemes {s : Stmt} {l : Lexeme} {ls : List Lexeme} (h : s.lexemes = l :: ls)
    (hstart : Kind.CanStart l.kind) (hne : l.kind ≠ .symbol .semicolon) : StartsLine s :=
  ⟨l, ls, h, hstart, fun hsemi => absurd hsemi hne⟩

/-- A statement that starts with a semicolon is empty. -/
theorem StartsLine.eq_empty {s : Stmt} (h : StartsLine s) {ahead rest : List Token}
    (hs : Shows s.lexemes ahead rest) (hsemi : nextKind ahead = .symbol .semicolon) :
    s = .empty := by
  obtain ⟨l, ls, hl, -, hempty⟩ := h
  rw [hl] at hs
  have hs_empty := hempty (hs.nextKind ▸ hsemi)
  cases s with
  | empty => rfl
  | _ => cases hs_empty

/-- A list of statements ends before a closing brace or at the end of the source. -/
def EndsLines (k : Kind) : Prop := k = .symbol .rightBrace ∨ k = .endOfInput

/-- No statement starts with `else`, and none ends with it. -/
theorem nextKind_lines_ne_else {ss : List Stmt} (hfirst : ∀ s ∈ ss, StartsLine s)
    {ahead rest : List Token} (hs : Shows (stmtsLexemes ss) ahead rest)
    (hrest : EndsLines (nextKind rest)) : nextKind ahead ≠ .keyword .else_ := by
  cases ss with
  | nil =>
    obtain rfl : ahead = rest := hs
    rcases hrest with h | h <;> simp [h]
  | cons s ss =>
    obtain ⟨l, ls, hl, hlk, -⟩ := hfirst s (by simp)
    rw [stmtsLexemes, hl] at hs
    exact hs.nextKind ▸ hlk.1

/-- The same holds behind a semicolon, which is an empty statement. -/
theorem nextKind_dropSemicolon_ne_else {ss : List Stmt} (hfirst : ∀ s ∈ ss, StartsLine s)
    {ahead rest : List Token} (hs : Shows (stmtsLexemes ss) ahead rest)
    (hrest : EndsLines (nextKind rest)) (takes : Bool) :
    nextKind (dropSemicolon takes ahead) ≠ .keyword .else_ := by
  by_cases hsemi : nextKind ahead = .symbol .semicolon
  · cases takes with
    | false => simp [hsemi]
    | true =>
      cases ss with
      | nil =>
        obtain rfl : ahead = rest := hs
        rcases hrest with h | h <;> simp [h] at hsemi
      | cons s ss =>
        obtain ⟨middle, h₁, h₂⟩ := shows_append.mp hs
        obtain rfl := (hfirst s (by simp)).eq_empty h₁ hsemi
        rw [dropSemicolon_empty h₁]
        exact nextKind_lines_ne_else (fun u hu => hfirst u (by simp [hu])) h₂.of_onNewLine hrest
  · rw [dropSemicolon_of_ne hsemi]
    exact nextKind_lines_ne_else hfirst hs hrest

/-- A decorator at the end of a line ends before the next line, unless that goes on with it. -/
theorem endsCall_of_lines {ss : List Stmt} (hfirst : ∀ s ∈ ss, StartsLine s)
    (hapart : linesApart Stmt.goesOn true ss = true) {ahead rest : List Token}
    (hs : Shows (onNewLine (stmtsLexemes ss)) ahead rest) (hrest : EndsLines (nextKind rest)) :
    EndsCall ahead := by
  cases ss with
  | nil =>
    obtain rfl : ahead = rest := hs
    rcases hrest with h | h <;> exact .inl (by rw [h]; rfl)
  | cons s ss =>
    obtain ⟨l, ls, hl, ⟨-, -, -, hlk⟩, -⟩ := hfirst s (by simp)
    have hgoes : l.kind.goesOn = false := by
      simp only [linesApart, Bool.true_and, Bool.and_eq_true, Bool.not_eq_true'] at hapart
      simpa [Stmt.goesOn, hl] using hapart.1
    rw [stmtsLexemes, hl] at hs
    obtain ⟨t, middle, rfl, ⟨ht, -, hline⟩, -⟩ := hs
    have ht : t.kind = l.kind := ht
    rw [← ht] at hlk hgoes
    rcases hlk with h | h | h
    · rw [hgoes] at h
      cases h
    · exact .inl h
    · exact .inr ⟨h, hline rfl⟩

/-- Statements are read one after the other; each may change the open elements. A decorator before
the first one takes it if it is empty. -/
theorem run_itemsWhile_loop_stmt (goesOn : Kind → Bool) {item : Parse Stmt} {f : Stmt → Stmt}
    (ss : List Stmt) (h : ∀ s ∈ ss, ReadsStmt item s.lexemes s (f s))
    (hfirst : ∀ s ∈ ss, StartsLine s) (hgoes : ∀ k, Kind.CanStart k → goesOn k = true) :
    ∀ behind n b els ahead rest m, Shows (stmtsLexemes ss) ahead rest →
      linesApart Stmt.goesOn behind ss = true → goesOn (nextKind rest) = false →
      EndsLines (nextKind rest) → elementsAfterAll ss els.length = some m → ahead.length < n →
      ∃ ss' b' els', itemsWhile.loop goesOn item n ⟨b, dropSemicolon behind ahead, els⟩ =
          .ok ss' ⟨b', rest, els'⟩ ∧
        ss'.map Stmt.withoutSpans = ((keptLines behind ss).map f).map Stmt.withoutSpans ∧
        els'.length = m := by
  induction ss with
  | nil =>
    intro behind n b els ahead rest m hs _ hstop hrest hm hn
    obtain ⟨n, rfl⟩ : ∃ k, n = k + 1 := ⟨n - 1, by omega⟩
    obtain rfl : ahead = rest := hs
    have hsemi : nextKind ahead ≠ .symbol .semicolon := by rcases hrest with h | h <;> simp [h]
    rw [dropSemicolon_of_ne hsemi]
    refine ⟨[], b, els, ?_, rfl, Option.some.inj hm⟩
    rw [itemsWhile.loop, run_bind (run_peekKind _)]
    simp [hstop]
  | cons s ss ih =>
    intro behind n b els ahead rest m hs hapart hstop hrest hm hn
    obtain ⟨middle, h₁, h₂⟩ := shows_append.mp hs
    obtain ⟨k, hk, hm⟩ := Option.bind_eq_some_iff.mp hm
    obtain ⟨l, ls, hl, hlk, -⟩ := hfirst s (by simp)
    have hlength : middle.length < ahead.length := by
      rw [shows_length h₁, hl, List.length_cons]
      omega
    have hfirst' : ∀ t ∈ ss, StartsLine t := fun t ht => hfirst t (by simp [ht])
    have hss := ih (fun t ht => h t (by simp [ht])) hfirst'
    simp only [linesApart, Bool.and_eq_true] at hapart
    by_cases hlost : (behind && s.isEmpty) = true
    · -- the decorator before has taken this line
      obtain ⟨rfl, hs_empty⟩ := Bool.and_eq_true_iff.mp hlost
      obtain rfl : s = .empty := by cases s <;> first | rfl | cases hs_empty
      obtain rfl : els.length = k := Option.some.inj hk
      rw [dropSemicolon_empty h₁, keptLines, if_pos hlost]
      simpa using hss false n b els middle rest m h₂.of_onNewLine hapart.2 hstop hrest hm (by omega)
    · have hdrop : dropSemicolon behind ahead = ahead := by
        cases behind with
        | false => simp
        | true =>
          refine dropSemicolon_of_ne fun hsemi => hlost ?_
          obtain rfl := (hfirst s (by simp)).eq_empty h₁ hsemi
          rfl
      have hkind : nextKind ahead = l.kind := by
        rw [hl] at h₁
        exact h₁.nextKind
      obtain ⟨n, rfl⟩ : ∃ k, n = k + 1 := ⟨n - 1, by omega⟩
      obtain ⟨s', b', els', hp, hv, hlen⟩ := h s (by simp) b els ahead middle k h₁
        (fun _ => nextKind_dropSemicolon_ne_else hfirst' h₂.of_onNewLine hrest _)
        (fun hend => endsCall_of_lines hfirst' (hend ▸ hapart.2) h₂ hrest) hk
      obtain ⟨ss', b'', els'', hps, hvs, hlens⟩ := hss s.endsInDecorator n b' els' middle rest m
        h₂.of_onNewLine hapart.2 hstop hrest (hlen ▸ hm) (by omega)
      refine ⟨s' :: ss', b'', els'', ?_, ?_, hlens⟩
      · rw [hdrop, itemsWhile.loop, run_bind (run_peekKind _)]
        simp only [Stream.kind_mk, hkind, hgoes _ hlk, if_true]
        rw [run_bind hp, run_bind hps]
        rfl
      · rw [keptLines, if_neg hlost]
        simp [hv, hvs]

/-- The lexemes of statements in braces. -/
def blockLexemes (body : List Stmt) : List Lexeme :=
  .mark .leftBrace :: (stmtsLexemes body ++ [.mark .rightBrace])

theorem run_block {body : List Stmt} {f : Stmt → Stmt}
    (h : ∀ s ∈ body, ReadsStmt rules.statement s.lexemes s (f s))
    (hfirst : ∀ s ∈ body, StartsLine s) (hapart : linesApart Stmt.goesOn false body = true)
    (b : Option Token) (els : List String) {ahead rest : List Token} {m : Nat}
    (hs : Shows (blockLexemes body) ahead rest)
    (hm : elementsAfterAll body els.length = some m) :
    ∃ body' b' els', block rules ⟨b, ahead, els⟩ = .ok body' ⟨b', rest, els'⟩ ∧
      body'.map Stmt.withoutSpans = ((keptLines false body).map f).map Stmt.withoutSpans ∧
      els'.length = m := by
  obtain ⟨t, ahead₁, rfl, ⟨ht, -⟩, hs⟩ := hs
  obtain ⟨middle, h₁, u, rest', rfl, ⟨hu, -⟩, rfl⟩ := shows_append.mp hs
  have hu : u.kind = .symbol .rightBrace := hu
  obtain ⟨body', b', els', hp, hv, hlen⟩ := run_itemsWhile_loop_stmt
    (fun k => k != .symbol .rightBrace && k != .endOfInput) body h hfirst
    (fun k hk => by simp [hk.2.1, hk.2.2.1]) false (ahead₁.length + 1) (some t) els ahead₁ _ m h₁
    hapart (by simp [hu]) (.inl hu) hm (by omega)
  rw [dropSemicolon_false] at hp
  refine ⟨body', some u, els', ?_, hv, hlen⟩
  rw [block, run_bind (run_expectSymbol ht), itemsWhile]
  have hitems : (budget >>= fun n => itemsWhile.loop
      (fun k => k != .symbol .rightBrace && k != .endOfInput) rules.statement n)
      ⟨some t, ahead₁, els⟩ = .ok body' ⟨b', u :: rest', els'⟩ := by
    rw [run_bind (run_budget _)]
    exact hp
  rw [run_bind hitems, run_bind (run_expectSymbol hu)]
  rfl

/-- The body of a function has elements of its own. -/
theorem Reads.functionBody {body : List Stmt} {f : Stmt → Stmt}
    (h : ∀ s ∈ body, ReadsStmt rules.statement s.lexemes s (f s))
    (hfirst : ∀ s ∈ body, StartsLine s) (hapart : linesApart Stmt.goesOn false body = true)
    (hpaired : Paired body) :
    Reads (Parse.functionBody rules) (blockLexemes body) (fun _ => True) (List.map Stmt.withoutSpans)
      (((keptLines false body).map f).map Stmt.withoutSpans) := by
  intro b els ahead rest hs _
  obtain ⟨m, hm⟩ := Option.isSome_iff_exists.mp hpaired
  obtain ⟨body', b', els', hp, hv, -⟩ := run_block h hfirst hapart b [] hs hm
  refine ⟨body', b', ?_, hv⟩
  simp [Parse.functionBody, withoutElements, hp]

end Parse

end MarkupScript
