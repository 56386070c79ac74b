import MarkupScript.Proofs.Print.Lexemes
import MarkupScript.Proofs.Print.ReadsBack
import MarkupScript.Proofs.Tree.Every
import MarkupScript.Proofs.Tree.Spans

/-!
# Lines behind decorators

A decorator is printed without a semicolon, and a line end does not end it. So the next line may be
taken for a part of it. A mark that can stand behind a call, such as `(` or `-`, goes on with the
call that the decorator is, and what it makes of it is no decorator. An empty statement is a
semicolon and ends the decorator, but it is gone as a statement.

`linesApart` tests lines for this, and `Program.reread` says what a program becomes if its empty
statements behind decorators are taken for semicolons.
-/

namespace MarkupScript

/-! ### Lines -/

/-- Whether the text of a statement ends with a decorator. -/
def Stmt.endsInDecorator : Stmt → Bool
  | .decorator _ => true
  | .if_ _ consequent none => consequent.endsInDecorator
  | .if_ _ _ (some alternate) => alternate.endsInDecorator
  | .while_ _ body => body.endsInDecorator
  | .for_ _ _ _ body => body.endsInDecorator
  | _ => false

/-- Whether a statement is empty. -/
def Stmt.isEmpty : Stmt → Bool
  | .empty => true
  | _ => false

/-- Whether a token in front of a statement goes on with a call that ends the line before. -/
def Kind.goesOn : Kind → Bool
  | .symbol .leftParen | .symbol .leftBracket | .symbol .plus | .symbol .minus => true
  | _ => false

/-- Whether the text of a statement goes on with a call that ends the line before. -/
def Stmt.goesOn (s : Stmt) : Bool := s.lexemes.head?.any (·.kind.goesOn)

section

variable (test : Stmt → Bool)

/-- Whether no line that the test holds for stands right behind a decorator. The first line does if
`behind`. -/
def linesApart (behind : Bool) : List Stmt → Bool
  | [] => true
  | s :: rest => !(behind && test s) && linesApart s.endsInDecorator rest

/-- Whether the lines in the body of an arrow function are apart. -/
def Expr.bodyApart : Expr → Bool
  | .arrow _ (.block body) _ => linesApart test false body
  | _ => true

/-- Whether the lines directly inside a statement are apart. -/
def Stmt.bodyApart : Stmt → Bool
  | .function _ _ body _ | .block body => linesApart test false body
  | _ => true

/-- Whether the lines of a program are apart, at any depth. -/
def Program.linesApart (p : Program) : Bool :=
  MarkupScript.linesApart test false p.body &&
    p.every (Expr.bodyApart test) (Stmt.bodyApart test)

end

/-! ### Reading again -/

mutual

/-- What an expression is read as again. -/
def Expr.reread : Expr → Expr
  | .binary left op right s => .binary left.reread op right.reread s
  | .unary op operand s => .unary op operand.reread s
  | .update op inFront operand s => .update op inFront operand.reread s
  | .member object property computed optional s =>
    .member object.reread property.reread computed optional s
  | .call callee arguments s => .call callee.reread (exprsReread arguments) s
  | .new callee arguments s => .new callee.reread (exprsReread arguments) s
  | .conditional test consequent alternate s =>
    .conditional test.reread consequent.reread alternate.reread s
  | .object properties s => .object (propertiesReread properties) s
  | .array items s => .array (exprsReread items) s
  | .arrow params body s => .arrow params body.reread s
  | .assignment target op value s => .assignment target.reread op value.reread s
  | .number value s => .number value s
  | .string value s => .string value s
  | .boolean value s => .boolean value s
  | .null s => .null s
  | .this_ s => .this_ s
  | .identifier name s => .identifier name s

/-- What expressions are read as again. -/
def exprsReread : List Expr → List Expr
  | [] => []
  | e :: rest => e.reread :: exprsReread rest

/-- What an expression that may be missing is read as again. -/
def exprReread? : Option Expr → Option Expr
  | none => none
  | some e => some e.reread

/-- What the properties of an object are read as again. -/
def propertiesReread : List Property → List Property
  | [] => []
  | ⟨key, value, shorthand⟩ :: rest => ⟨key, value.reread, shorthand⟩ :: propertiesReread rest

/-- What the body of an arrow function is read as again. -/
def ArrowBody.reread : ArrowBody → ArrowBody
  | .expression value => .expression value.reread
  | .block body => .block (stmtsReread false body)

/-- What a statement is read as again. -/
def Stmt.reread : Stmt → Stmt
  | .expression value => .expression value.reread
  | .declaration kind ds => .declaration kind (declaratorsReread ds)
  | .function name params body decorator =>
    .function name params (stmtsReread false body) (decoratorReread? decorator)
  | .return_ value => .return_ (exprReread? value)
  | .if_ test consequent alternate =>
    .if_ test.reread consequent.reread (stmtReread? alternate)
  | .while_ test body => .while_ test.reread body.reread
  | .for_ init test update body =>
    .for_ (stmtReread? init) (exprReread? test) (exprReread? update) body.reread
  | .block body => .block (stmtsReread false body)
  | .export_ declared => .export_ declared.reread
  | .elementStart name attributes s => .elementStart name (attributesReread attributes) s
  | .element name attributes s => .element name (attributesReread attributes) s
  | .decorator value => .decorator value.reread
  | .elementEnd name s => .elementEnd name s
  | .import_ defaultName specifiers source => .import_ defaultName specifiers source
  | .break_ => .break_
  | .continue_ => .continue_
  | .empty => .empty

/-- What statements are read as again. An empty one right behind a decorator is gone. -/
def stmtsReread (behind : Bool) : List Stmt → List Stmt
  | [] => []
  | s :: rest =>
    if behind && s.isEmpty then stmtsReread false rest
    else s.reread :: stmtsReread s.endsInDecorator rest

/-- What a statement that may be missing is read as again. -/
def stmtReread? : Option Stmt → Option Stmt
  | none => none
  | some s => some s.reread

/-- What declared variables are read as again. -/
def declaratorsReread : List Declarator → List Declarator
  | [] => []
  | ⟨name, init⟩ :: rest => ⟨name, exprReread? init⟩ :: declaratorsReread rest

/-- What the attributes of a tag are read as again. -/
def attributesReread : List Attribute → List Attribute
  | [] => []
  | .bare name :: rest => .bare name :: attributesReread rest
  | .text name value :: rest => .text name value :: attributesReread rest
  | .braced name value :: rest => .braced name value.reread :: attributesReread rest

/-- What a decorator is read as again. -/
def Decorator.reread : Decorator → Decorator
  | ⟨name, arguments, s⟩ => ⟨name, exprsReread arguments, s⟩

/-- What a decorator that may be missing is read as again. -/
def decoratorReread? : Option Decorator → Option Decorator
  | none => none
  | some d => some d.reread

end

/-- What a program is read as again, if no line goes on with a decorator. -/
def Program.reread (p : Program) : Program := ⟨stmtsReread false p.body⟩

theorem Expr.isTarget_reread {e : Expr} (h : e.isTarget = true) : e.reread.isTarget = true := by
  cases e <;> exact h

/-- A name behind a dot stays as it is. -/
theorem Expr.reread_of_isWord {e : Expr} (h : e.isWord = true) : e.reread = e := by
  cases e <;> first | rfl | cases h

theorem Property.reread_of_shorthand {p : Property} (hwf : p.WellFormed)
    (h : p.shorthand = true) : p.value.reread = p.value := by
  simp only [Property.WellFormed, h, if_true] at hwf
  obtain ⟨-, span, hvalue⟩ := hwf
  rw [hvalue]
  rfl

/-! ### Items of lists -/

/-- The lines that are statements again: all but empty ones right behind decorators. -/
def keptLines (behind : Bool) : List Stmt → List Stmt
  | [] => []
  | s :: rest =>
    if behind && s.isEmpty then keptLines false rest else s :: keptLines s.endsInDecorator rest

/-- An attribute with another value, if the value is an expression. -/
def Attribute.mapValue (f : Expr → Expr) : Attribute → Attribute
  | .bare name => .bare name
  | .text name value => .text name value
  | .braced name value => .braced name (f value)

theorem exprsReread_eq (es : List Expr) : exprsReread es = es.map Expr.reread := by
  induction es with
  | nil => rfl
  | cons e es ih => simp [exprsReread, ih]

theorem propertiesReread_eq (ps : List Property) :
    propertiesReread ps = ps.map fun p => { p with value := p.value.reread } := by
  induction ps with
  | nil => rfl
  | cons p ps ih =>
    obtain ⟨key, value, shorthand⟩ := p
    simp [propertiesReread, ih]

theorem exprReread?_eq (e : Option Expr) : exprReread? e = e.map Expr.reread := by
  cases e <;> rfl

theorem stmtReread?_eq (s : Option Stmt) : stmtReread? s = s.map Stmt.reread := by
  cases s <;> rfl

theorem declaratorsReread_eq (ds : List Declarator) :
    declaratorsReread ds = ds.map fun d => { d with init := d.init.map Expr.reread } := by
  induction ds with
  | nil => rfl
  | cons d ds ih =>
    obtain ⟨name, init⟩ := d
    simp [declaratorsReread, exprReread?_eq, ih]

theorem attributesReread_eq (as : List Attribute) :
    attributesReread as = as.map (Attribute.mapValue Expr.reread) := by
  induction as with
  | nil => rfl
  | cons a as ih => cases a <;> simp [attributesReread, Attribute.mapValue, ih]

theorem stmtsReread_eq (behind : Bool) (ss : List Stmt) :
    stmtsReread behind ss = (keptLines behind ss).map Stmt.reread := by
  induction ss generalizing behind with
  | nil => rfl
  | cons s ss ih =>
    simp only [stmtsReread, keptLines, ih]
    split <;> rfl

theorem keptLines_sublist (behind : Bool) (ss : List Stmt) : (keptLines behind ss).Sublist ss := by
  induction ss generalizing behind with
  | nil => exact .slnil
  | cons s ss ih =>
    rw [keptLines]
    split
    · exact (ih false).cons s
    · exact (ih s.endsInDecorator).cons_cons s

/-- No line is lost if no empty statement stands right behind a decorator. -/
theorem keptLines_eq_iff {behind : Bool} {ss : List Stmt} :
    keptLines behind ss = ss ↔ linesApart Stmt.isEmpty behind ss = true := by
  induction ss generalizing behind with
  | nil => simp [keptLines, linesApart]
  | cons s ss ih =>
    rw [keptLines, linesApart]
    split
    · next hlost =>
      have hlength := (keptLines_sublist false ss).length_le
      simp only [hlost, Bool.not_true, Bool.false_and, Bool.false_eq_true, iff_false]
      intro h
      rw [h, List.length_cons] at hlength
      omega
    · next hkept => simp [ih, hkept]

/-! ### Programs that are read again as they are -/

theorem exprsReread_iff {es : List Expr} :
    exprsWithoutSpans (exprsReread es) = exprsWithoutSpans es ↔
      ∀ e ∈ es, e.reread.withoutSpans = e.withoutSpans := by
  simp [exprsReread_eq, exprsWithoutSpans_eq]

theorem exprReread?_iff {e : Option Expr} :
    exprWithoutSpans? (exprReread? e) = exprWithoutSpans? e ↔
      ∀ x ∈ e, x.reread.withoutSpans = x.withoutSpans := by
  cases e <;> simp [exprReread?, exprWithoutSpans?]

theorem stmtReread?_iff {s : Option Stmt} :
    stmtWithoutSpans? (stmtReread? s) = stmtWithoutSpans? s ↔
      ∀ x ∈ s, x.reread.withoutSpans = x.withoutSpans := by
  cases s <;> simp [stmtReread?, stmtWithoutSpans?]

theorem propertiesReread_iff {ps : List Property} :
    propertiesWithoutSpans (propertiesReread ps) = propertiesWithoutSpans ps ↔
      ∀ p ∈ ps, p.value.reread.withoutSpans = p.value.withoutSpans := by
  simp [propertiesReread_eq, propertiesWithoutSpans_eq, Property.withoutSpans]

theorem declaratorsReread_iff {ds : List Declarator} :
    declaratorsWithoutSpans (declaratorsReread ds) = declaratorsWithoutSpans ds ↔
      ∀ d ∈ ds, ∀ e ∈ d.init, e.reread.withoutSpans = e.withoutSpans := by
  simp [declaratorsReread_eq, declaratorsWithoutSpans_eq, Declarator.withoutSpans,
    ← exprReread?_eq, exprReread?_iff]

theorem attributesReread_iff {as : List Attribute} :
    attributesWithoutSpans (attributesReread as) = attributesWithoutSpans as ↔
      ∀ x e, .braced x e ∈ as → e.reread.withoutSpans = e.withoutSpans := by
  rw [attributesReread_eq, attributesWithoutSpans_eq, attributesWithoutSpans_eq, List.map_map,
    List.map_inj_left]
  constructor
  · intro h x e hm
    simpa [Attribute.mapValue, Attribute.withoutSpans] using h _ hm
  · intro h a hm
    cases a with
    | braced x e => simpa [Attribute.mapValue, Attribute.withoutSpans] using h x e hm
    | _ => rfl

theorem Decorator.reread_iff {d : Decorator} :
    d.reread.withoutSpans = d.withoutSpans ↔
      ∀ e ∈ d.arguments, e.reread.withoutSpans = e.withoutSpans := by
  obtain ⟨name, arguments, span⟩ := d
  simp [Decorator.reread, Decorator.withoutSpans, exprsReread_iff]

theorem decoratorReread?_iff {d : Option Decorator} :
    decoratorWithoutSpans? (decoratorReread? d) = decoratorWithoutSpans? d ↔
      ∀ x ∈ d, ∀ e ∈ x.arguments, e.reread.withoutSpans = e.withoutSpans := by
  cases d <;> simp [decoratorReread?, decoratorWithoutSpans?, Decorator.reread_iff]

/-- Lines are read again as they are if none is lost and each of them is. -/
theorem stmtsReread_iff {ss : List Stmt} :
    stmtsWithoutSpans (stmtsReread false ss) = stmtsWithoutSpans ss ↔
      linesApart Stmt.isEmpty false ss = true ∧
        ∀ s ∈ ss, s.reread.withoutSpans = s.withoutSpans := by
  rw [stmtsReread_eq, stmtsWithoutSpans_eq, stmtsWithoutSpans_eq, ← keptLines_eq_iff, List.map_map]
  constructor
  · intro h
    have hlength := congrArg List.length h
    simp only [List.length_map] at hlength
    have hkept := (keptLines_sublist false ss).eq_of_length hlength
    rw [hkept] at h
    exact ⟨hkept, List.map_inj_left.mp h⟩
  · rintro ⟨hkept, h⟩
    rw [hkept]
    exact List.map_inj_left.mpr h

theorem reread_iff :
    TreeInduction
      (fun e => e.reread.withoutSpans = e.withoutSpans ↔
        e.every (Expr.bodyApart Stmt.isEmpty) (Stmt.bodyApart Stmt.isEmpty) = true)
      (fun s => s.reread.withoutSpans = s.withoutSpans ↔
        s.every (Expr.bodyApart Stmt.isEmpty) (Stmt.bodyApart Stmt.isEmpty) = true) where
  number _ _ := by simp [Expr.reread, Expr.every, Expr.bodyApart]
  string _ _ := by simp [Expr.reread, Expr.every, Expr.bodyApart]
  boolean _ _ := by simp [Expr.reread, Expr.every, Expr.bodyApart]
  null _ := by simp [Expr.reread, Expr.every, Expr.bodyApart]
  this_ _ := by simp [Expr.reread, Expr.every, Expr.bodyApart]
  identifier _ _ := by simp [Expr.reread, Expr.every, Expr.bodyApart]
  binary _ _ _ _ hl hr := by
    simp [Expr.reread, Expr.withoutSpans, Expr.every, Expr.bodyApart, hl, hr]
  unary _ _ _ ho := by
    simp [Expr.reread, Expr.withoutSpans, Expr.every, Expr.bodyApart, ho]
  update _ _ _ _ ho := by
    simp [Expr.reread, Expr.withoutSpans, Expr.every, Expr.bodyApart, ho]
  member _ _ _ _ _ hb hp := by
    simp [Expr.reread, Expr.withoutSpans, Expr.every, Expr.bodyApart, hb, hp]
  call _ _ _ hc ha := by
    simp only [Expr.reread, Expr.withoutSpans, Expr.call.injEq, and_true, Expr.every, Expr.bodyApart,
      Bool.true_and, Bool.and_eq_true, hc, exprsReread_iff, everyExpr_iff]
    exact and_congr_right fun _ => forall₂_congr ha
  new _ _ _ hc ha := by
    simp only [Expr.reread, Expr.withoutSpans, Expr.new.injEq, and_true, Expr.every, Expr.bodyApart,
      Bool.true_and, Bool.and_eq_true, hc, exprsReread_iff, everyExpr_iff]
    exact and_congr_right fun _ => forall₂_congr ha
  conditional _ _ _ _ ht hc ha := by
    simp [Expr.reread, Expr.withoutSpans, Expr.every, Expr.bodyApart, ht, hc, ha, and_assoc]
  object _ _ hp := by
    simp only [Expr.reread, Expr.withoutSpans, Expr.object.injEq, and_true, Expr.every,
      Expr.bodyApart, Bool.true_and, propertiesReread_iff, everyProperty_iff]
    exact forall₂_congr hp
  array _ _ hi := by
    simp only [Expr.reread, Expr.withoutSpans, Expr.array.injEq, and_true, Expr.every,
      Expr.bodyApart, Bool.true_and, exprsReread_iff, everyExpr_iff]
    exact forall₂_congr hi
  arrowExpression _ _ _ hv := by
    simp [Expr.reread, ArrowBody.reread, Expr.withoutSpans, ArrowBody.withoutSpans, Expr.every,
      ArrowBody.every, Expr.bodyApart, hv]
  arrowBlock _ _ _ hb := by
    simp only [Expr.reread, ArrowBody.reread, Expr.withoutSpans, ArrowBody.withoutSpans,
      Expr.arrow.injEq, ArrowBody.block.injEq, true_and, and_true, Expr.every, ArrowBody.every,
      Expr.bodyApart, Bool.and_eq_true, stmtsReread_iff, everyStmt_iff]
    exact and_congr_right fun _ => forall₂_congr hb
  assignment _ _ _ _ ht hv := by
    simp [Expr.reread, Expr.withoutSpans, Expr.every, Expr.bodyApart, ht, hv]
  expression _ hv := by
    simp [Stmt.reread, Stmt.withoutSpans, Stmt.every, Stmt.bodyApart, hv]
  declaration _ _ hd := by
    simp only [Stmt.reread, Stmt.withoutSpans, Stmt.declaration.injEq, true_and, Stmt.every,
      Stmt.bodyApart, Bool.true_and, declaratorsReread_iff, everyDeclarator_iff]
    exact forall₂_congr fun d hm => forall₂_congr (hd d hm)
  function _ _ _ _ hb hd := by
    simp only [Stmt.reread, Stmt.withoutSpans, Stmt.function.injEq, true_and, Stmt.every,
      Stmt.bodyApart, Bool.and_eq_true, stmtsReread_iff, decoratorReread?_iff, everyStmt_iff,
      everyDecorator?_iff]
    exact and_congr (and_congr_right fun _ => forall₂_congr hb)
      (forall₂_congr fun d hm => forall₂_congr (hd d hm))
  return_ _ hv := by
    simp only [Stmt.reread, Stmt.withoutSpans, Stmt.return_.injEq, Stmt.every, Stmt.bodyApart,
      Bool.true_and, exprReread?_iff, everyExpr?_iff]
    exact forall₂_congr hv
  if_ _ _ _ ht hc ha := by
    simp only [Stmt.reread, Stmt.withoutSpans, Stmt.if_.injEq, Stmt.every, Stmt.bodyApart,
      Bool.true_and, Bool.and_eq_true, stmtReread?_iff, everyStmt?_iff, ht, hc, and_assoc]
    exact and_congr_right fun _ => and_congr_right fun _ => forall₂_congr ha
  while_ _ _ ht hb := by
    simp [Stmt.reread, Stmt.withoutSpans, Stmt.every, Stmt.bodyApart, ht, hb]
  for_ _ _ _ _ hi _ _ ht hu hb := by
    simp only [Stmt.reread, Stmt.withoutSpans, Stmt.for_.injEq, Stmt.every, Stmt.bodyApart,
      Bool.true_and, Bool.and_eq_true, stmtReread?_iff, exprReread?_iff, everyStmt?_iff,
      everyExpr?_iff, hb, and_assoc]
    exact and_congr (forall₂_congr hi)
      (and_congr (forall₂_congr ht) (and_congr_left fun _ => forall₂_congr hu))
  block _ hb := by
    simp only [Stmt.reread, Stmt.withoutSpans, Stmt.block.injEq, Stmt.every, Stmt.bodyApart,
      Bool.and_eq_true, stmtsReread_iff, everyStmt_iff]
    exact and_congr_right fun _ => forall₂_congr hb
  break_ := by simp [Stmt.reread, Stmt.every, Stmt.bodyApart]
  continue_ := by simp [Stmt.reread, Stmt.every, Stmt.bodyApart]
  import_ _ _ _ := by simp [Stmt.reread, Stmt.every, Stmt.bodyApart]
  export_ _ hd := by simp [Stmt.reread, Stmt.withoutSpans, Stmt.every, Stmt.bodyApart, hd]
  empty := by simp [Stmt.reread, Stmt.every, Stmt.bodyApart]
  elementStart _ _ _ ha := by
    simp only [Stmt.reread, Stmt.withoutSpans, Stmt.elementStart.injEq, true_and, and_true,
      Stmt.every, Stmt.bodyApart, Bool.true_and, attributesReread_iff, everyAttribute_iff]
    exact forall₃_congr ha
  elementEnd _ _ := by simp [Stmt.reread, Stmt.every, Stmt.bodyApart]
  element _ _ _ ha := by
    simp only [Stmt.reread, Stmt.withoutSpans, Stmt.element.injEq, true_and, and_true,
      Stmt.every, Stmt.bodyApart, Bool.true_and, attributesReread_iff, everyAttribute_iff]
    exact forall₃_congr ha
  decorator d ha := by
    obtain ⟨name, arguments, span⟩ := d
    simp only [Stmt.reread, Stmt.withoutSpans, Stmt.decorator.injEq, Stmt.every, Stmt.bodyApart,
      Bool.true_and, Decorator.reread_iff, Decorator.every, everyExpr_iff]
    exact forall₂_congr ha

/-- A program is read again as it is if and only if none of its empty statements stands right behind
a decorator. -/
theorem Program.reread_iff {p : Program} :
    p.reread.withoutSpans = p.withoutSpans ↔ p.linesApart Stmt.isEmpty = true := by
  simp only [Program.reread, Program.withoutSpans, Program.mk.injEq, stmtsReread_iff,
    Program.linesApart, Program.every, Bool.and_eq_true, everyStmt_iff]
  exact and_congr_right fun _ => forall₂_congr fun s _ => MarkupScript.reread_iff.stmt s

/-! ### Programs without decorators -/

section

variable {f : Expr → Bool} (test : Stmt → Bool)

theorem Stmt.endsInDecorator_of_every {s : Stmt} (h : s.every f Stmt.readsBack = true) :
    s.endsInDecorator = false := by
  fun_induction Stmt.endsInDecorator s with
  | case1 d =>
    simp only [Stmt.every, Bool.and_eq_true] at h
    cases h.1
  | case2 test consequent ih =>
    simp only [Stmt.every, Bool.and_eq_true] at h
    exact ih h.1.2
  | case3 test consequent alternate ih =>
    simp only [Stmt.every, everyStmt?, Bool.and_eq_true] at h
    exact ih h.2
  | case4 test body ih =>
    simp only [Stmt.every, Bool.and_eq_true] at h
    exact ih h.2
  | case5 init test update body ih =>
    simp only [Stmt.every, Bool.and_eq_true] at h
    exact ih h.2
  | case6 => rfl

theorem linesApart_of_every {body : List Stmt} (h : everyStmt f Stmt.readsBack body = true) :
    linesApart test false body = true := by
  induction body with
  | nil => rfl
  | cons s body ih =>
    simp only [everyStmt, Bool.and_eq_true] at h
    rw [linesApart, Stmt.endsInDecorator_of_every h.1]
    exact ih h.2

theorem Expr.bodyApart_of_every {e : Expr} (h : e.every f Stmt.readsBack = true) :
    e.bodyApart test = true := by
  cases e with
  | arrow params body span =>
    cases body with
    | expression value => rfl
    | block body =>
      simp only [Expr.every, ArrowBody.every, Bool.and_eq_true] at h
      exact linesApart_of_every test h.2
  | _ => rfl

theorem Stmt.bodyApart_of_every {s : Stmt} (h : s.every f Stmt.readsBack = true) :
    s.bodyApart test = true := by
  cases s with
  | function name params body decorator =>
    simp only [Stmt.every, Bool.and_eq_true] at h
    exact linesApart_of_every test h.1.2
  | block body =>
    simp only [Stmt.every, Bool.and_eq_true] at h
    exact linesApart_of_every test h.2
  | _ => rfl

/-- Without decorators, all lines are apart. -/
theorem Program.linesApart_of_readsBack {p : Program} (h : p.readsBack = true) :
    p.linesApart test = true := by
  simp only [Program.linesApart, Program.every, Bool.and_eq_true, everyStmt_iff]
  refine ⟨linesApart_of_every test h, fun s hs => ?_⟩
  exact (every_of_every (fun _ => Expr.bodyApart_of_every test)
    fun _ => Stmt.bodyApart_of_every test).stmt s (everyStmt_iff.mp h s hs)

end

end MarkupScript
