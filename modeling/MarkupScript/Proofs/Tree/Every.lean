import MarkupScript.Proofs.Tree.Induction

/-!
# Every part of a tree

`Program.every` tests all expressions and all statements of a program, however deep they lie: in
lists, branches and loops, in the bodies of functions and arrow functions, in the values of
attributes and in the arguments of decorators.
-/

namespace MarkupScript

section

variable (onExpr : Expr → Bool) (onStmt : Stmt → Bool)

mutual

/-- Whether an expression and all its parts pass. -/
def Expr.every : Expr → Bool
  | .number value s => onExpr (.number value s)
  | .string value s => onExpr (.string value s)
  | .boolean value s => onExpr (.boolean value s)
  | .null s => onExpr (.null s)
  | .this_ s => onExpr (.this_ s)
  | .identifier name s => onExpr (.identifier name s)
  | .binary left op right s => onExpr (.binary left op right s) && left.every && right.every
  | .unary op operand s => onExpr (.unary op operand s) && operand.every
  | .update op inFront operand s => onExpr (.update op inFront operand s) && operand.every
  | .member object property computed optional s =>
    onExpr (.member object property computed optional s) && object.every && property.every
  | .call callee arguments s =>
    onExpr (.call callee arguments s) && callee.every && everyExpr arguments
  | .new callee arguments s =>
    onExpr (.new callee arguments s) && callee.every && everyExpr arguments
  | .conditional test consequent alternate s =>
    onExpr (.conditional test consequent alternate s) && test.every && consequent.every &&
      alternate.every
  | .object properties s => onExpr (.object properties s) && everyProperty properties
  | .array items s => onExpr (.array items s) && everyExpr items
  | .arrow params body s => onExpr (.arrow params body s) && body.every
  | .assignment target op value s =>
    onExpr (.assignment target op value s) && target.every && value.every

/-- Whether all expressions of a list pass. -/
def everyExpr : List Expr → Bool
  | [] => true
  | e :: rest => e.every && everyExpr rest

/-- Whether an expression passes, if there is one. -/
def everyExpr? : Option Expr → Bool
  | none => true
  | some e => e.every

/-- Whether the values of all properties pass. -/
def everyProperty : List Property → Bool
  | [] => true
  | ⟨_, value, _⟩ :: rest => value.every && everyProperty rest

/-- Whether the body of an arrow function passes. -/
def ArrowBody.every : ArrowBody → Bool
  | .expression value => value.every
  | .block body => everyStmt body

/-- Whether a statement and all its parts pass. -/
def Stmt.every : Stmt → Bool
  | .expression value => onStmt (.expression value) && value.every
  | .declaration kind ds =>
    onStmt (.declaration kind ds) && everyDeclarator ds
  | .function name params body decorator =>
    onStmt (.function name params body decorator) && everyStmt body && everyDecorator? decorator
  | .return_ value => onStmt (.return_ value) && everyExpr? value
  | .if_ test consequent alternate =>
    onStmt (.if_ test consequent alternate) && test.every && consequent.every &&
      everyStmt? alternate
  | .while_ test body => onStmt (.while_ test body) && test.every && body.every
  | .for_ init test update body =>
    onStmt (.for_ init test update body) && everyStmt? init && everyExpr? test &&
      everyExpr? update && body.every
  | .block body => onStmt (.block body) && everyStmt body
  | .break_ => onStmt .break_
  | .continue_ => onStmt .continue_
  | .import_ defaultName specifiers source => onStmt (.import_ defaultName specifiers source)
  | .export_ declared => onStmt (.export_ declared) && declared.every
  | .empty => onStmt .empty
  | .elementStart name attributes s =>
    onStmt (.elementStart name attributes s) && everyAttribute attributes
  | .elementEnd name s => onStmt (.elementEnd name s)
  | .element name attributes s => onStmt (.element name attributes s) && everyAttribute attributes
  | .decorator value => onStmt (.decorator value) && value.every

/-- Whether all statements of a list pass. -/
def everyStmt : List Stmt → Bool
  | [] => true
  | s :: rest => s.every && everyStmt rest

/-- Whether a statement passes, if there is one. -/
def everyStmt? : Option Stmt → Bool
  | none => true
  | some s => s.every

/-- Whether the first values of all variables pass. -/
def everyDeclarator : List Declarator → Bool
  | [] => true
  | ⟨_, init⟩ :: rest => everyExpr? init && everyDeclarator rest

/-- Whether the values of all attributes pass. -/
def everyAttribute : List Attribute → Bool
  | [] => true
  | .braced _ value :: rest => value.every && everyAttribute rest
  | .bare _ :: rest => everyAttribute rest
  | .text _ _ :: rest => everyAttribute rest

/-- Whether the arguments of a decorator pass. -/
def Decorator.every : Decorator → Bool
  | ⟨_, arguments, _⟩ => everyExpr arguments

/-- Whether a decorator passes, if there is one. -/
def everyDecorator? : Option Decorator → Bool
  | none => true
  | some d => d.every

end

/-- Whether all expressions and all statements of a program pass. -/
def Program.every (p : Program) : Bool := everyStmt onExpr onStmt p.body

end

/-! ### The whole and its parts -/

section

variable {onExpr : Expr → Bool} {onStmt : Stmt → Bool}

theorem Expr.onExpr_of_every {e : Expr} (h : e.every onExpr onStmt = true) : onExpr e = true := by
  cases e <;> simp_all [Expr.every]

theorem Stmt.onStmt_of_every {s : Stmt} (h : s.every onExpr onStmt = true) : onStmt s = true := by
  cases s <;> simp_all [Stmt.every]

theorem everyExpr_iff {es : List Expr} :
    everyExpr onExpr onStmt es = true ↔ ∀ e ∈ es, e.every onExpr onStmt = true := by
  induction es with
  | nil => simp [everyExpr]
  | cons e es ih => simp [everyExpr, ih]

theorem everyExpr?_iff {e : Option Expr} :
    everyExpr? onExpr onStmt e = true ↔ ∀ x ∈ e, x.every onExpr onStmt = true := by
  cases e <;> simp [everyExpr?]

theorem everyProperty_iff {ps : List Property} :
    everyProperty onExpr onStmt ps = true ↔ ∀ p ∈ ps, p.value.every onExpr onStmt = true := by
  induction ps with
  | nil => simp [everyProperty]
  | cons p ps ih =>
    obtain ⟨key, value, shorthand⟩ := p
    simp [everyProperty, ih]

theorem everyStmt_iff {ss : List Stmt} :
    everyStmt onExpr onStmt ss = true ↔ ∀ s ∈ ss, s.every onExpr onStmt = true := by
  induction ss with
  | nil => simp [everyStmt]
  | cons s ss ih => simp [everyStmt, ih]

theorem everyStmt?_iff {s : Option Stmt} :
    everyStmt? onExpr onStmt s = true ↔ ∀ x ∈ s, x.every onExpr onStmt = true := by
  cases s <;> simp [everyStmt?]

theorem everyDeclarator_iff {ds : List Declarator} :
    everyDeclarator onExpr onStmt ds = true ↔
      ∀ d ∈ ds, ∀ e ∈ d.init, e.every onExpr onStmt = true := by
  induction ds with
  | nil => simp [everyDeclarator]
  | cons d ds ih =>
    obtain ⟨name, init⟩ := d
    simp [everyDeclarator, everyExpr?_iff, ih]

theorem everyAttribute_iff {as : List Attribute} :
    everyAttribute onExpr onStmt as = true ↔
      ∀ x e, .braced x e ∈ as → e.every onExpr onStmt = true := by
  induction as with
  | nil => simp [everyAttribute]
  | cons a as ih =>
    cases a with
    | braced name value =>
      simp only [everyAttribute, Bool.and_eq_true, ih, List.mem_cons, Attribute.braced.injEq]
      constructor
      · rintro ⟨hv, h⟩ x e (⟨-, rfl⟩ | hm)
        · exact hv
        · exact h x e hm
      · exact fun h => ⟨h name value (.inl ⟨rfl, rfl⟩), fun x e hm => h x e (.inr hm)⟩
    | _ => simp [everyAttribute, ih]

theorem everyDecorator?_iff {d : Option Decorator} :
    everyDecorator? onExpr onStmt d = true ↔
      ∀ x ∈ d, ∀ e ∈ x.arguments, e.every onExpr onStmt = true := by
  obtain _ | ⟨name, arguments, span⟩ := d <;>
    simp [everyDecorator?, Decorator.every, everyExpr_iff]

/-- If every part passes one test, and what passes it with all its parts passes another one, then
every part passes the other one. -/
theorem every_of_every {f : Expr → Bool} {g : Stmt → Bool}
    (hf : ∀ e : Expr, e.every onExpr onStmt = true → f e = true)
    (hg : ∀ s : Stmt, s.every onExpr onStmt = true → g s = true) :
    TreeInduction (fun e => e.every onExpr onStmt = true → e.every f g = true)
      (fun s => s.every onExpr onStmt = true → s.every f g = true) where
  number _ _ h := hf _ h
  string _ _ h := hf _ h
  boolean _ _ h := hf _ h
  null _ h := hf _ h
  this_ _ h := hf _ h
  identifier _ _ h := hf _ h
  binary _ _ _ _ hl hr h := by
    have hself := hf _ h
    simp only [Expr.every, Bool.and_eq_true] at h ⊢
    exact ⟨⟨hself, hl h.1.2⟩, hr h.2⟩
  unary _ _ _ ho h := by
    have hself := hf _ h
    simp only [Expr.every, Bool.and_eq_true] at h ⊢
    exact ⟨hself, ho h.2⟩
  update _ _ _ _ ho h := by
    have hself := hf _ h
    simp only [Expr.every, Bool.and_eq_true] at h ⊢
    exact ⟨hself, ho h.2⟩
  member _ _ _ _ _ hb hp h := by
    have hself := hf _ h
    simp only [Expr.every, Bool.and_eq_true] at h ⊢
    exact ⟨⟨hself, hb h.1.2⟩, hp h.2⟩
  call _ _ _ hc ha h := by
    have hself := hf _ h
    simp only [Expr.every, Bool.and_eq_true, everyExpr_iff] at h ⊢
    exact ⟨⟨hself, hc h.1.2⟩, fun e he => ha e he (h.2 e he)⟩
  new _ _ _ hc ha h := by
    have hself := hf _ h
    simp only [Expr.every, Bool.and_eq_true, everyExpr_iff] at h ⊢
    exact ⟨⟨hself, hc h.1.2⟩, fun e he => ha e he (h.2 e he)⟩
  conditional _ _ _ _ ht hc ha h := by
    have hself := hf _ h
    simp only [Expr.every, Bool.and_eq_true] at h ⊢
    exact ⟨⟨⟨hself, ht h.1.1.2⟩, hc h.1.2⟩, ha h.2⟩
  object _ _ hp h := by
    have hself := hf _ h
    simp only [Expr.every, Bool.and_eq_true, everyProperty_iff] at h ⊢
    exact ⟨hself, fun p hm => hp p hm (h.2 p hm)⟩
  array _ _ hi h := by
    have hself := hf _ h
    simp only [Expr.every, Bool.and_eq_true, everyExpr_iff] at h ⊢
    exact ⟨hself, fun e he => hi e he (h.2 e he)⟩
  arrowExpression _ _ _ hv h := by
    have hself := hf _ h
    simp only [Expr.every, ArrowBody.every, Bool.and_eq_true] at h ⊢
    exact ⟨hself, hv h.2⟩
  arrowBlock _ _ _ hb h := by
    have hself := hf _ h
    simp only [Expr.every, ArrowBody.every, Bool.and_eq_true, everyStmt_iff] at h ⊢
    exact ⟨hself, fun t ht => hb t ht (h.2 t ht)⟩
  assignment _ _ _ _ ht hv h := by
    have hself := hf _ h
    simp only [Expr.every, Bool.and_eq_true] at h ⊢
    exact ⟨⟨hself, ht h.1.2⟩, hv h.2⟩
  expression _ hv h := by
    have hself := hg _ h
    simp only [Stmt.every, Bool.and_eq_true] at h ⊢
    exact ⟨hself, hv h.2⟩
  declaration _ _ hd h := by
    have hself := hg _ h
    simp only [Stmt.every, Bool.and_eq_true, everyDeclarator_iff] at h ⊢
    exact ⟨hself, fun d hm e he => hd d hm e he (h.2 d hm e he)⟩
  function _ _ _ _ hb hd h := by
    have hself := hg _ h
    simp only [Stmt.every, Bool.and_eq_true, everyStmt_iff, everyDecorator?_iff] at h ⊢
    exact ⟨⟨hself, fun t ht => hb t ht (h.1.2 t ht)⟩, fun d hm e he => hd d hm e he (h.2 d hm e he)⟩
  return_ _ hv h := by
    have hself := hg _ h
    simp only [Stmt.every, Bool.and_eq_true, everyExpr?_iff] at h ⊢
    exact ⟨hself, fun e he => hv e he (h.2 e he)⟩
  if_ _ _ _ ht hc ha h := by
    have hself := hg _ h
    simp only [Stmt.every, Bool.and_eq_true, everyStmt?_iff] at h ⊢
    exact ⟨⟨⟨hself, ht h.1.1.2⟩, hc h.1.2⟩, fun s hs => ha s hs (h.2 s hs)⟩
  while_ _ _ ht hb h := by
    have hself := hg _ h
    simp only [Stmt.every, Bool.and_eq_true] at h ⊢
    exact ⟨⟨hself, ht h.1.2⟩, hb h.2⟩
  for_ _ _ _ _ hi _ _ ht hu hb h := by
    have hself := hg _ h
    simp only [Stmt.every, Bool.and_eq_true, everyStmt?_iff, everyExpr?_iff] at h ⊢
    exact ⟨⟨⟨⟨hself, fun s hs => hi s hs (h.1.1.1.2 s hs)⟩, fun e he => ht e he (h.1.1.2 e he)⟩,
      fun e he => hu e he (h.1.2 e he)⟩, hb h.2⟩
  block _ hb h := by
    have hself := hg _ h
    simp only [Stmt.every, Bool.and_eq_true, everyStmt_iff] at h ⊢
    exact ⟨hself, fun t ht => hb t ht (h.2 t ht)⟩
  break_ h := hg _ h
  continue_ h := hg _ h
  import_ _ _ _ h := hg _ h
  export_ _ hd h := by
    have hself := hg _ h
    simp only [Stmt.every, Bool.and_eq_true] at h ⊢
    exact ⟨hself, hd h.2⟩
  empty h := hg _ h
  elementStart _ _ _ ha h := by
    have hself := hg _ h
    simp only [Stmt.every, Bool.and_eq_true, everyAttribute_iff] at h ⊢
    exact ⟨hself, fun x e hm => ha x e hm (h.2 x e hm)⟩
  elementEnd _ _ h := hg _ h
  element _ _ _ ha h := by
    have hself := hg _ h
    simp only [Stmt.every, Bool.and_eq_true, everyAttribute_iff] at h ⊢
    exact ⟨hself, fun x e hm => ha x e hm (h.2 x e hm)⟩
  decorator d ha h := by
    have hself := hg _ h
    obtain ⟨name, arguments, span⟩ := d
    simp only [Stmt.every, Decorator.every, Bool.and_eq_true, everyExpr_iff] at h ⊢
    exact ⟨hself, fun e he => ha e he (h.2 e he)⟩

end

end MarkupScript
