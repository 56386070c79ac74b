import MarkupScript.Proofs.Parse.DecoratorEnds
import MarkupScript.Proofs.Parse.Results
import MarkupScript.Proofs.Parse.Trees
import MarkupScript.Proofs.Print.Parts
import MarkupScript.Proofs.Print.Programs

/-!
# Printing and parsing decorators

A printed decorator ends with its line only if the next line does not go on with its call. If no
line does, the text of a program is read as the program without the empty statements behind
decorators. If one does, the text is no program: in a program nothing goes on with the call of a
decorator, wherever it stands.
-/

namespace MarkupScript

namespace Parse

/-! ### Lexemes in a program -/

/-- The lexemes are shown in tokens where nothing goes on with a decorator. -/
def ShownApart (ls : List Lexeme) : Prop := ∃ ahead rest, Shows ls ahead rest ∧ DecoratorsEnd ahead

theorem suffix_of_shows {ls : List Lexeme} {ahead rest : List Token} (h : Shows ls ahead rest) :
    rest <:+ ahead := by
  induction ls generalizing ahead with
  | nil => exact h ▸ List.suffix_refl _
  | cons l ls ih =>
    obtain ⟨t, ahead', rfl, -, h⟩ := h
    exact (ih h).trans (List.suffix_cons t ahead')

namespace ShownApart

variable {ls ms : List Lexeme} {l : Lexeme}

theorem append (h : ShownApart (ls ++ ms)) : ShownApart ls ∧ ShownApart ms := by
  obtain ⟨ahead, rest, hs, hend⟩ := h
  obtain ⟨middle, h₁, h₂⟩ := shows_append.mp hs
  have hsuffix := suffix_of_shows h₁
  exact ⟨⟨ahead, middle, h₁, hend⟩, middle, rest, h₂,
    fun _ _ _ _ _ _ hinner => hend (hinner.trans hsuffix)⟩

theorem cons (h : ShownApart (l :: ls)) : ShownApart ls :=
  (show ShownApart ([l] ++ ls) from h).append.2

theorem inherited : Inherited ShownApart where
  front h := h.append.1
  behind h _ := h.append.2.cons
  sameLine := by
    rintro ls ⟨ahead, rest, hs, hend⟩
    exact ⟨ahead, rest, hs.of_onSameLine, hend⟩

theorem onNewLine (h : ShownApart (onNewLine ls)) : ShownApart ls := by
  obtain ⟨ahead, rest, hs, hend⟩ := h
  exact ⟨ahead, rest, hs.of_onNewLine, hend⟩

theorem stmts {ss : List Stmt} (h : ShownApart (stmtsLexemes ss)) :
    ∀ s ∈ ss, ShownApart s.lexemes := by
  induction ss with
  | nil => simp
  | cons s ss ih =>
    obtain ⟨hfirst, hrest⟩ := h.append
    exact List.forall_mem_cons.mpr ⟨hfirst, ih hrest.onNewLine⟩

end ShownApart

/-! ### Lines behind decorators -/

/-- Nothing that is shown behind a decorator goes on with it. -/
theorem ShownApart.goesOn_eq_false {d : Decorator} (hname : IsIdentifier d.name) {l : Lexeme}
    {ls : List Lexeme} (h : ShownApart (d.lexemes ++ l :: ls)) : l.kind.goesOn = false := by
  obtain ⟨name, es, span⟩ := d
  obtain ⟨ahead, rest, hs, hend⟩ := h
  obtain ⟨behind, hd, hl⟩ := shows_append.mp hs
  obtain ⟨t, _, rfl, ⟨ht, -⟩, u, _, rfl, ⟨hu, -⟩, v, inner, rfl, ⟨hv, -⟩, hd⟩ := hd
  obtain ⟨_, hes, w, behind', rfl, ⟨hw, -⟩, rfl⟩ := shows_append.mp hd
  have hbalanced : Balanced (commaLexemes (exprsLexemes es)) :=
    .arguments fun e _ => Balanced.tree.expr e
  have hpartner : behindParens 1 inner = some behind' := by
    rw [hbalanced inner _ 0 hes, behindParens_close hw, if_pos rfl]
  have hstop := hend (List.suffix_refl _) ht (hu.trans hname.2) hv hpartner
  rwa [hl.nextKind] at hstop

end Parse

open Parse

theorem Stmt.exists_suffix_of_endsInDecorator {s : Stmt} (hwf : s.WellFormed)
    (h : s.endsInDecorator = true) :
    ∃ d : Decorator, d.lexemes <:+ s.lexemes ∧ IsIdentifier d.name := by
  fun_induction Stmt.endsInDecorator s with
  | case1 d =>
    obtain ⟨name, es, span⟩ := d
    exact ⟨⟨name, es, span⟩, List.suffix_refl _, hwf.1⟩
  | case2 test consequent ih =>
    obtain ⟨d, hd, hname⟩ := ih hwf.2.1 h
    refine ⟨d, hd.trans ?_, hname⟩
    simp only [Stmt.lexemes, elseLexemes, List.append_nil]
    exact List.suffix_append_of_suffix (List.suffix_cons ..)
  | case3 test consequent alternate ih =>
    obtain ⟨d, hd, hname⟩ := ih hwf.2.2.1 h
    refine ⟨d, hd.trans ?_, hname⟩
    simp only [Stmt.lexemes, elseLexemes]
    exact List.suffix_append_of_suffix (List.suffix_cons ..)
  | case4 test body ih =>
    obtain ⟨d, hd, hname⟩ := ih hwf.2 h
    refine ⟨d, hd.trans ?_, hname⟩
    simp only [Stmt.lexemes]
    exact List.suffix_append_of_suffix (List.suffix_cons ..)
  | case5 init test update body ih =>
    obtain ⟨d, hd, hname⟩ := ih hwf.2.2.2.2 h
    refine ⟨d, hd.trans ?_, hname⟩
    simp only [Stmt.lexemes]
    exact List.suffix_append_of_suffix (List.suffix_cons ..)
  | case6 => cases h

/-- Lines that are shown behind a statement are apart from it and from each other. -/
theorem linesApart_behind {s : Stmt} {rest : List Stmt} (hwf : s.WellFormed)
    (hrest : ∀ t ∈ rest, t.WellFormed) (h : ShownApart (stmtsLexemes (s :: rest))) :
    linesApart Stmt.goesOn s.endsInDecorator rest = true := by
  induction rest generalizing s with
  | nil => rfl
  | cons t rest ih =>
    have hnext := h.append.2.onNewLine
    have htail := ih (hrest t (by simp)) (fun u hu => hrest u (by simp [hu])) hnext
    simp only [linesApart, Bool.and_eq_true, htail, and_true, Bool.not_eq_true']
    by_cases hends : s.endsInDecorator = true
    · obtain ⟨d, ⟨front, hlexemes⟩, hname⟩ := Stmt.exists_suffix_of_endsInDecorator hwf hends
      rw [stmtsLexemes, ← hlexemes, List.append_assoc] at h
      rw [hends, Bool.true_and, Stmt.goesOn]
      cases hfirst : t.lexemes with
      | nil => rfl
      | cons l ls =>
        rw [stmtsLexemes, hfirst] at h
        exact h.append.2.goesOn_eq_false hname
    · simp [hends]

theorem linesApart_of_shownApart {body : List Stmt} (hwf : ∀ s ∈ body, s.WellFormed)
    (h : ShownApart (stmtsLexemes body)) : linesApart Stmt.goesOn false body = true := by
  cases body with
  | nil => rfl
  | cons s rest => exact linesApart_behind (hwf s (by simp)) (fun t ht => hwf t (by simp [ht])) h

theorem Expr.bodyApart_of_shownApart {f : Expr → Bool} {g : Stmt → Bool} {e : Expr}
    (h : e.IsSound f g) (hs : ShownApart e.lexemes) : e.bodyApart Stmt.goesOn = true := by
  cases e with
  | arrow params body span =>
    cases body with
    | expression => rfl
    | block body =>
      have hbody : ShownApart (stmtsLexemes body) :=
        ShownApart.inherited.between (r := []) (ShownApart.inherited.behind hs rfl) rfl
      exact linesApart_of_shownApart (fun t ht => (h.arrowBlock t ht).1) hbody
  | _ => rfl

theorem Stmt.bodyApart_of_shownApart {f : Expr → Bool} {g : Stmt → Bool} {s : Stmt}
    (h : s.IsSound f g) (hs : ShownApart s.lexemes) : s.bodyApart Stmt.goesOn = true := by
  cases s with
  | function name params body decorator =>
    have hbody : ShownApart (stmtsLexemes body) :=
      ShownApart.inherited.behind (ShownApart.inherited.front hs) rfl
    exact linesApart_of_shownApart (fun t ht => (h.function.2 t ht).1) hbody
  | block body =>
    have hbody : ShownApart (stmtsLexemes body) :=
      ShownApart.inherited.between (r := []) hs rfl
    exact linesApart_of_shownApart (fun t ht => (h.block t ht).1) hbody
  | _ => rfl

/-- Where a tree is shown, the lines in all its parts are apart. -/
theorem everyApart_of_shownApart {f : Expr → Bool} {g : Stmt → Bool} : TreeInduction
    (fun e => e.IsSound f g → ShownApart e.lexemes →
      e.every (Expr.bodyApart Stmt.goesOn) (Stmt.bodyApart Stmt.goesOn) = true)
    (fun s => s.IsSound f g → ShownApart s.lexemes →
      s.every (Expr.bodyApart Stmt.goesOn) (Stmt.bodyApart Stmt.goesOn) = true) :=
  ShownApart.inherited.every (fun _ _ => ShownApart.stmts)
    (fun _ => Expr.bodyApart_of_shownApart) (fun _ => Stmt.bodyApart_of_shownApart)
    (fun _ _ => rfl) fun s h => by cases s <;> first | rfl | cases h

/-! ### Programs -/

/-- If the tokens of a printed program are a program, no line of it goes on with a decorator. -/
theorem Program.linesApart_of_program {p : Program} (hwf : p.WellFormed) {f : Expr → Bool}
    {g : Stmt → Bool} (h : p.every f g = true) {source : String} {tokens rest : List Token}
    (htokens : tokenize source = .ok tokens) (hshows : Shows (stmtsLexemes p.body) tokens rest)
    {q : Program} {s : Stream} (hq : Parse.program (.ofTokens tokens) = .ok q s) :
    p.linesApart Stmt.goesOn = true := by
  obtain ⟨front, last, rfl, hlast, -, -, hfront⟩ := (lexed_of_tokenize htokens).ends
  have hshown : ShownApart (stmtsLexemes p.body) :=
    ⟨_, rest, hshows, decoratorsEnd_of_program hfront hlast hq⟩
  have hsound := Program.isSound hwf h
  simp only [Program.linesApart, Program.every, Bool.and_eq_true, everyStmt_iff]
  exact ⟨linesApart_of_shownApart (fun t ht => (hsound t ht).1) hshown,
    fun t ht => everyApart_of_shownApart.stmt t (hsound t ht) (hshown.stmts t ht)⟩

/-- A parsed program whose expressions read back is parsed from its text without the empty
statements behind decorators, unless a line goes on with the decorator before it. Then the text is
no program. So the text is read as the same program, up to spans, if and only if no line of the two
kinds stands behind a decorator. -/
theorem parse_print_decorators {source : String} {p : Program} (h : parse source = .ok p)
    (hback : p.every Expr.readsBack (fun _ => true) = true) :
    (p.linesApart Stmt.goesOn = true →
      ∃ q, parse p.print = .ok q ∧ q.withoutSpans = p.reread.withoutSpans) ∧
    (p.linesApart Stmt.goesOn = false → ∃ e, parse p.print = .error (.grammar e)) ∧
    ((∃ q, parse p.print = .ok q ∧ q.withoutSpans = p.withoutSpans) ↔
      p.linesApart Stmt.goesOn = true ∧ p.linesApart Stmt.isEmpty = true) := by
  have hwf := parse_wellFormed h
  obtain ⟨tokens, last, htokens, hshows, hlast⟩ :=
    tokenize_print_of_keepsComparisons hwf (Program.keepsComparisons_of_readsBack hback)
  have hreread (hapart : p.linesApart Stmt.goesOn = true) :
      ∃ q, parse p.print = .ok q ∧ q.withoutSpans = p.reread.withoutSpans := by
    obtain ⟨q, s, hq, hspans⟩ := Program.reads_reread hwf hback hapart hshows hlast
    exact ⟨q, by simp [parse, htokens, hq], hspans⟩
  have hfails (hjoined : p.linesApart Stmt.goesOn = false) :
      ∃ e, parse p.print = .error (.grammar e) := by
    cases hq : Parse.program (.ofTokens tokens) with
    | error e s => exact ⟨e, by simp [parse, htokens, hq]⟩
    | ok q s =>
      rw [Program.linesApart_of_program hwf hback htokens hshows hq] at hjoined
      cases hjoined
  refine ⟨hreread, hfails, ?_⟩
  cases hapart : p.linesApart Stmt.goesOn with
  | false =>
    obtain ⟨e, he⟩ := hfails hapart
    simp [he]
  | true =>
    obtain ⟨q, hq, hspans⟩ := hreread hapart
    simp [hq, hspans, Program.reread_iff]

/-- Decorators in a branch, in a body and in the argument of another one, with lines behind them
that start with a tag, a string, an update and a keyword. -/
def decoratorsText : String :=
  "@a(() => \x7b @b; ++c \x7d)\n<p>\n@d\n'text'\n</p>\nif (e) @f(1, [2])\nelse @g\n" ++
    "function h() \x7b @i; return; \x7d"

theorem parse_print_decoratorsText :
    ∃ p, parse decoratorsText = .ok p ∧ p.every Expr.readsBack (fun _ => true) = true ∧
      p.linesApart Stmt.goesOn = true ∧ p.linesApart Stmt.isEmpty = true ∧
      ∃ q, parse p.print = .ok q ∧ q.withoutSpans = p.withoutSpans := by
  have hcheck : (parse decoratorsText).toOption.any (fun p =>
      p.every Expr.readsBack (fun _ => true) && p.linesApart Stmt.goesOn &&
        p.linesApart Stmt.isEmpty) = true := by decide +kernel
  cases h : parse decoratorsText with
  | error e =>
    rw [h] at hcheck
    cases hcheck
  | ok p =>
    rw [h] at hcheck
    simp only [Except.toOption, Option.any_some, Bool.and_eq_true] at hcheck
    obtain ⟨⟨hback, hapart⟩, hempty⟩ := hcheck
    exact ⟨p, rfl, hback, hapart, hempty,
      (parse_print_decorators h hback).2.2.mpr ⟨hapart, hempty⟩⟩

/-- A list behind a decorator is taken for a member of its call. -/
def decoratedListText : String := "@a; [1]"

theorem parse_print_decoratedListText :
    ∃ p e, parse decoratedListText = .ok p ∧ p.every Expr.readsBack (fun _ => true) = true ∧
      parse p.print = .error e := by
  have hcheck : (parse decoratedListText).toOption.any (fun p =>
      p.every Expr.readsBack (fun _ => true) && !(parse p.print).isOk) = true := by decide +kernel
  cases h : parse decoratedListText with
  | error e =>
    rw [h] at hcheck
    cases hcheck
  | ok p =>
    rw [h] at hcheck
    simp only [Except.toOption, Option.any_some, Bool.and_eq_true, Bool.not_eq_true'] at hcheck
    obtain ⟨hback, hfails⟩ := hcheck
    cases hprint : parse p.print with
    | error e => exact ⟨p, e, rfl, hback, hprint⟩
    | ok q =>
      rw [hprint] at hfails
      cases hfails

end MarkupScript
