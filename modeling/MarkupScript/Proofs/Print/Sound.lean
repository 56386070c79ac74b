import MarkupScript.Proofs.Tree.Every
import MarkupScript.Proofs.Tree.WellFormed

/-!
# Sound trees

A tree is sound if it can come from a source and all its parts pass a test, such as that they are
none of the exceptions that do not read back. All parts of a sound tree are sound, except for the
names behind dots and the variables of shorthand properties, which are no expressions of their own.
-/

namespace MarkupScript

section

variable (f : Expr → Bool) (g : Stmt → Bool)

/-- An expression can come from a source, and all its parts pass. -/
def Expr.IsSound (e : Expr) : Prop := e.WellFormed ∧ e.every f g = true

/-- A statement can come from a source, and all its parts pass. -/
def Stmt.IsSound (s : Stmt) : Prop := s.WellFormed ∧ s.every f g = true

end

variable {f : Expr → Bool} {g : Stmt → Bool}

namespace Expr.IsSound

variable {span : Span}

theorem passes {e : Expr} (h : e.IsSound f g) : f e = true := Expr.onExpr_of_every h.2

theorem binary {left right : Expr} {op : BinaryOp}
    (h : (Expr.binary left op right span).IsSound f g) : left.IsSound f g ∧ right.IsSound f g := by
  obtain ⟨hwf, hev⟩ := h
  simp only [Expr.every, Bool.and_eq_true] at hev
  exact ⟨⟨hwf.1, hev.1.2⟩, hwf.2, hev.2⟩

theorem unary {op : UnaryOp} {operand : Expr} (h : (Expr.unary op operand span).IsSound f g) :
    operand.IsSound f g := by
  obtain ⟨hwf, hev⟩ := h
  simp only [Expr.every, Bool.and_eq_true] at hev
  exact ⟨hwf, hev.2⟩

theorem update {op : UpdateOp} {inFront : Bool} {operand : Expr}
    (h : (Expr.update op inFront operand span).IsSound f g) : operand.IsSound f g := by
  obtain ⟨hwf, hev⟩ := h
  simp only [Expr.every, Bool.and_eq_true] at hev
  exact ⟨hwf.2, hev.2⟩

theorem member {base property : Expr} {computed optional : Bool}
    (h : (Expr.member base property computed optional span).IsSound f g) :
    base.IsSound f g ∧ (computed = true → property.IsSound f g) := by
  obtain ⟨hwf, hev⟩ := h
  simp only [Expr.every, Bool.and_eq_true] at hev
  refine ⟨⟨hwf.1, hev.1.2⟩, ?_⟩
  rintro rfl
  exact ⟨hwf.2.1, hev.2⟩

theorem call {callee : Expr} {es : List Expr} (h : (Expr.call callee es span).IsSound f g) :
    callee.IsSound f g ∧ ∀ e ∈ es, e.IsSound f g := by
  obtain ⟨hwf, hev⟩ := h
  simp only [Expr.every, Bool.and_eq_true, everyExpr_iff] at hev
  exact ⟨⟨hwf.1, hev.1.2⟩, fun e he => ⟨exprsWellFormed_iff.mp hwf.2 e he, hev.2 e he⟩⟩

theorem new {callee : Expr} {es : List Expr} (h : (Expr.new callee es span).IsSound f g) :
    callee.IsSound f g ∧ ∀ e ∈ es, e.IsSound f g := by
  obtain ⟨hwf, hev⟩ := h
  simp only [Expr.every, Bool.and_eq_true, everyExpr_iff] at hev
  exact ⟨⟨hwf.1, hev.1.2⟩, fun e he => ⟨exprsWellFormed_iff.mp hwf.2 e he, hev.2 e he⟩⟩

theorem conditional {test consequent alternate : Expr}
    (h : (Expr.conditional test consequent alternate span).IsSound f g) :
    test.IsSound f g ∧ consequent.IsSound f g ∧ alternate.IsSound f g := by
  obtain ⟨hwf, hev⟩ := h
  simp only [Expr.every, Bool.and_eq_true] at hev
  exact ⟨⟨hwf.1, hev.1.1.2⟩, ⟨hwf.2.1, hev.1.2⟩, hwf.2.2, hev.2⟩

theorem object {ps : List Property} (h : (Expr.object ps span).IsSound f g) :
    ∀ p ∈ ps, p.shorthand = false → p.value.IsSound f g := by
  obtain ⟨hwf, hev⟩ := h
  simp only [Expr.every, Bool.and_eq_true, everyProperty_iff] at hev
  intro p hm hlong
  have := propertiesWellFormed_iff.mp hwf p hm
  exact ⟨by simpa [Property.WellFormed, hlong] using this, hev.2 p hm⟩

theorem array {es : List Expr} (h : (Expr.array es span).IsSound f g) :
    ∀ e ∈ es, e.IsSound f g := by
  obtain ⟨hwf, hev⟩ := h
  simp only [Expr.every, Bool.and_eq_true, everyExpr_iff] at hev
  exact fun e he => ⟨exprsWellFormed_iff.mp hwf e he, hev.2 e he⟩

theorem arrowExpression {params : List String} {value : Expr}
    (h : (Expr.arrow params (.expression value) span).IsSound f g) : value.IsSound f g := by
  obtain ⟨hwf, hev⟩ := h
  simp only [Expr.every, ArrowBody.every, Bool.and_eq_true] at hev
  exact ⟨hwf.2, hev.2⟩

theorem arrowBlock {params : List String} {body : List Stmt}
    (h : (Expr.arrow params (.block body) span).IsSound f g) : ∀ s ∈ body, s.IsSound f g := by
  obtain ⟨hwf, hev⟩ := h
  simp only [Expr.every, ArrowBody.every, Bool.and_eq_true, everyStmt_iff] at hev
  exact fun s hs => ⟨stmtsWellFormed_iff.mp hwf.2.1 s hs, hev.2 s hs⟩

theorem assignment {target value : Expr} {op : AssignOp}
    (h : (Expr.assignment target op value span).IsSound f g) :
    target.IsSound f g ∧ value.IsSound f g := by
  obtain ⟨hwf, hev⟩ := h
  simp only [Expr.every, Bool.and_eq_true] at hev
  exact ⟨⟨hwf.2.1, hev.1.2⟩, hwf.2.2, hev.2⟩

end Expr.IsSound

namespace Stmt.IsSound

theorem passes {s : Stmt} (h : s.IsSound f g) : g s = true := Stmt.onStmt_of_every h.2

theorem expression {value : Expr} (h : (Stmt.expression value).IsSound f g) :
    value.IsSound f g := by
  obtain ⟨hwf, hev⟩ := h
  simp only [Stmt.every, Bool.and_eq_true] at hev
  exact ⟨hwf, hev.2⟩

theorem declaration {kind : VariableKind} {ds : List Declarator}
    (h : (Stmt.declaration kind ds).IsSound f g) : ∀ d ∈ ds, ∀ e ∈ d.init, e.IsSound f g := by
  obtain ⟨hwf, hev⟩ := h
  simp only [Stmt.every, Bool.and_eq_true, everyDeclarator_iff] at hev
  intro d hd e he
  exact ⟨exprWellFormed?_iff.mp (declaratorsWellFormed_iff.mp hwf.2 d hd).2 e he, hev.2 d hd e he⟩

theorem function {name : String} {params : List String} {body : List Stmt}
    {decorator : Option Decorator} (h : (Stmt.function name params body decorator).IsSound f g) :
    decorator = none ∧ ∀ s ∈ body, s.IsSound f g := by
  obtain ⟨hwf, hev⟩ := h
  simp only [Stmt.every, Bool.and_eq_true, everyStmt_iff] at hev
  exact ⟨Option.isNone_iff_eq_none.mp hwf.2.2.2.2,
    fun s hs => ⟨stmtsWellFormed_iff.mp hwf.2.2.1 s hs, hev.1.2 s hs⟩⟩

theorem return_ {value : Option Expr} (h : (Stmt.return_ value).IsSound f g) :
    ∀ e ∈ value, e.IsSound f g := by
  obtain ⟨hwf, hev⟩ := h
  simp only [Stmt.every, Bool.and_eq_true, everyExpr?_iff] at hev
  exact fun e he => ⟨exprWellFormed?_iff.mp hwf e he, hev.2 e he⟩

theorem if_ {test : Expr} {consequent : Stmt} {alternate : Option Stmt}
    (h : (Stmt.if_ test consequent alternate).IsSound f g) :
    test.IsSound f g ∧ consequent.IsSound f g ∧ ∀ s ∈ alternate, s.IsSound f g := by
  obtain ⟨hwf, hev⟩ := h
  simp only [Stmt.every, Bool.and_eq_true, everyStmt?_iff] at hev
  exact ⟨⟨hwf.1, hev.1.1.2⟩, ⟨hwf.2.1, hev.1.2⟩,
    fun s hs => ⟨stmtWellFormed?_iff.mp hwf.2.2.1 s hs, hev.2 s hs⟩⟩

theorem while_ {test : Expr} {body : Stmt} (h : (Stmt.while_ test body).IsSound f g) :
    test.IsSound f g ∧ body.IsSound f g := by
  obtain ⟨hwf, hev⟩ := h
  simp only [Stmt.every, Bool.and_eq_true] at hev
  exact ⟨⟨hwf.1, hev.1.2⟩, hwf.2, hev.2⟩

theorem for_ {init : Option Stmt} {test update : Option Expr} {body : Stmt}
    (h : (Stmt.for_ init test update body).IsSound f g) :
    (∀ s ∈ init, s.IsSound f g) ∧ (∀ e ∈ test, e.IsSound f g) ∧
      (∀ e ∈ update, e.IsSound f g) ∧ body.IsSound f g := by
  obtain ⟨⟨-, hinit, htest, hupdate, hbody⟩, hev⟩ := h
  simp only [Stmt.every, Bool.and_eq_true, everyStmt?_iff, everyExpr?_iff] at hev
  exact ⟨fun s hs => ⟨stmtWellFormed?_iff.mp hinit s hs, hev.1.1.1.2 s hs⟩,
    fun e he => ⟨exprWellFormed?_iff.mp htest e he, hev.1.1.2 e he⟩,
    fun e he => ⟨exprWellFormed?_iff.mp hupdate e he, hev.1.2 e he⟩, hbody, hev.2⟩

theorem block {body : List Stmt} (h : (Stmt.block body).IsSound f g) :
    ∀ s ∈ body, s.IsSound f g := by
  obtain ⟨hwf, hev⟩ := h
  simp only [Stmt.every, Bool.and_eq_true, everyStmt_iff] at hev
  exact fun s hs => ⟨stmtsWellFormed_iff.mp hwf s hs, hev.2 s hs⟩

theorem export_ {declared : Stmt} (h : (Stmt.export_ declared).IsSound f g) :
    declared.IsSound f g := by
  obtain ⟨hwf, hev⟩ := h
  simp only [Stmt.every, Bool.and_eq_true] at hev
  exact ⟨hwf.2, hev.2⟩

theorem elementStart {name : String} {as : List Attribute} {span : Span}
    (h : (Stmt.elementStart name as span).IsSound f g) :
    ∀ x e, .braced x e ∈ as → e.IsSound f g := by
  obtain ⟨hwf, hev⟩ := h
  simp only [Stmt.every, Bool.and_eq_true, everyAttribute_iff] at hev
  exact fun x e hm => ⟨(attributesWellFormed_iff.mp hwf.2 _ hm).2, hev.2 x e hm⟩

theorem element {name : String} {as : List Attribute} {span : Span}
    (h : (Stmt.element name as span).IsSound f g) : ∀ x e, .braced x e ∈ as → e.IsSound f g := by
  obtain ⟨hwf, hev⟩ := h
  simp only [Stmt.every, Bool.and_eq_true, everyAttribute_iff] at hev
  exact fun x e hm => ⟨(attributesWellFormed_iff.mp hwf.2 _ hm).2, hev.2 x e hm⟩

theorem decorator {d : Decorator} (h : (Stmt.decorator d).IsSound f g) :
    ∀ e ∈ d.arguments, e.IsSound f g := by
  obtain ⟨name, es, span⟩ := d
  obtain ⟨hwf, hev⟩ := h
  simp only [Stmt.every, Decorator.every, Bool.and_eq_true, everyExpr_iff] at hev
  exact fun e he => ⟨exprsWellFormed_iff.mp hwf.2 e he, hev.2 e he⟩

end Stmt.IsSound

theorem Program.isSound {p : Program} (hwf : p.WellFormed) (h : p.every f g = true) :
    ∀ s ∈ p.body, s.IsSound f g :=
  fun s hs => ⟨stmtsWellFormed_iff.mp hwf.1 s hs, everyStmt_iff.mp h s hs⟩

end MarkupScript
