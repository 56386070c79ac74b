import MarkupScript.Proofs.Print.Lexemes
import MarkupScript.Proofs.Print.Sound

/-!
# What the parts of a tree inherit

The lexemes of a part stand in a row among those of the whole, at the front or behind a mark or
word. If a property of rows of lexemes goes over to such rows, then from a tree it goes over to all
its parts, and what follows from it for one tree follows for all of them. The names behind dots and
the variables of shorthand properties are no parts of their own, so a row behind a dot need not have
the property.
-/

namespace MarkupScript

/-- Whether a token is a mark that the name of a property follows. -/
def Kind.isDot : Kind → Bool
  | .symbol .dot | .symbol .optionalChain => true
  | _ => false

/-- A property of rows of lexemes goes over to parts of them. -/
structure Inherited (C : List Lexeme → Prop) : Prop where
  front : ∀ {ls ms}, C (ls ++ ms) → C ls
  behind : ∀ {r l ls}, C (r ++ l :: ls) → l.kind.isDot = false → C ls
  sameLine : ∀ {ls}, C (onSameLine ls) → C ls

namespace Inherited

variable {C : List Lexeme → Prop} (hC : Inherited C) {r ls rest : List Lexeme} {l : Lexeme}

include hC

/-! ### Rows and lists -/

theorem between (h : C (r ++ l :: (ls ++ rest))) (hl : l.kind.isDot = false) : C ls :=
  hC.front (hC.behind h hl)

theorem parensIf {needed : Bool} (h : C (lexemesParenthesisedIf needed ls)) : C ls := by
  cases needed
  · exact h
  · exact hC.between (r := []) h rfl

theorem inPlace {e : Expr} {least : Nat} (h : C (e.lexemesInPlace least ls)) : C ls :=
  hC.parensIf h

theorem commas {lss : List (List Lexeme)} (h : C (commaLexemes lss)) : ∀ ls ∈ lss, C ls := by
  induction lss with
  | nil => simp
  | cons ls lss ih =>
    cases lss with
    | nil => exact List.forall_mem_singleton.mpr h
    | cons ms lss => exact List.forall_mem_cons.mpr ⟨hC.front h, ih (hC.behind h rfl)⟩

theorem exprs {es : List Expr} (h : C (commaLexemes (exprsLexemes es))) :
    ∀ e ∈ es, C e.lexemes := by
  rw [exprsLexemes_eq] at h
  exact fun e he => hC.commas h _ (List.mem_map_of_mem he)

theorem properties {ps : List Property} (h : C (commaLexemes (propertiesLexemes ps))) :
    ∀ p ∈ ps, p.shorthand = false → C p.value.lexemes := by
  rw [propertiesLexemes_eq] at h
  intro p hp hlong
  have hproperty := hC.commas h _ (List.mem_map_of_mem hp)
  rw [Property.lexemes, hlong] at hproperty
  exact hC.behind (r := [_]) hproperty rfl

theorem declarators {ds : List Declarator} (h : C (commaLexemes (declaratorsLexemes ds))) :
    ∀ d ∈ ds, ∀ e ∈ d.init, C e.lexemes := by
  rw [declaratorsLexemes_eq] at h
  rintro ⟨name, init⟩ hd e rfl
  exact hC.behind (r := [_]) (hC.commas h _ (List.mem_map_of_mem hd)) rfl

theorem attributes {as : List Attribute} (h : C (attributesLexemes as)) :
    ∀ x e, .braced x e ∈ as → C e.lexemes := by
  rw [attributesLexemes_eq] at h
  intro x e hm
  obtain ⟨before, after, rfl⟩ := List.append_of_mem hm
  rw [List.map_append, List.flatten_append, List.map_cons, List.flatten_cons] at h
  simp only [Attribute.lexemes, List.append_assoc, List.cons_append] at h
  exact hC.between (r := [_]) (hC.behind h rfl) rfl

theorem forPart {e : Option Expr} (h : C (forPartLexemes e)) : ∀ x ∈ e, C x.lexemes := by
  rintro x rfl
  exact hC.inPlace h

/-! ### Trees -/

/-- What follows from an inherited property for single expressions and statements follows for all
parts of a tree. -/
theorem every {f f' : Expr → Bool} {g g' : Stmt → Bool}
    (hlines : ∀ ss : List Stmt, (∀ s ∈ ss, s.IsSound f g) → C (stmtsLexemes ss) →
      ∀ s ∈ ss, C s.lexemes)
    (hexpr : ∀ e : Expr, e.IsSound f g → C e.lexemes → f' e = true)
    (hstmt : ∀ s : Stmt, s.IsSound f g → C s.lexemes → g' s = true)
    (hname : ∀ x span, f' (.identifier x span) = true)
    (hinit : ∀ s : Stmt, s.isForInit = true → g' s = true) :
    TreeInduction (fun e => e.IsSound f g → C e.lexemes → e.every f' g' = true)
      (fun s => s.IsSound f g → C s.lexemes → s.every f' g' = true) where
  number _ _ h hs := hexpr _ h hs
  string _ _ h hs := hexpr _ h hs
  boolean _ _ h hs := hexpr _ h hs
  null _ h hs := hexpr _ h hs
  this_ _ h hs := hexpr _ h hs
  identifier _ _ _ _ := hname _ _
  binary _ op _ _ hl hr h hs := by
    obtain ⟨hleft, hright⟩ := h.binary
    have hop : (Lexeme.mark op.symbol).kind.isDot = false := by cases op <;> rfl
    simp only [Expr.every, Bool.and_eq_true]
    exact ⟨⟨hexpr _ h hs, hl hleft (hC.inPlace (hC.parensIf (hC.front hs)))⟩,
      hr hright (hC.inPlace (hC.parensIf (hC.behind hs hop)))⟩
  unary op _ _ ho h hs := by
    have hop : op.lexeme.kind.isDot = false := by cases op <;> rfl
    simp only [Expr.every, Bool.and_eq_true]
    exact ⟨hexpr _ h hs, ho h.unary (hC.inPlace (hC.behind (r := []) hs hop))⟩
  update op inFront _ _ ho h hs := by
    simp only [Expr.every, Bool.and_eq_true]
    refine ⟨hexpr _ h hs, ho h.update ?_⟩
    cases inFront with
    | true =>
      have hop : (Lexeme.mark op.symbol).kind.isDot = false := by cases op <;> rfl
      exact hC.inPlace (hC.behind (r := []) hs hop)
    | false => exact hC.inPlace (hC.front hs)
  member base property computed optional _ hb hp h hs := by
    obtain ⟨hbase, hproperty⟩ := h.member
    have hwf := h.1
    have hself := hexpr _ h hs
    simp only [Expr.every, Bool.and_eq_true]
    cases computed with
    | true =>
      obtain rfl : optional = false := hwf.2.2
      have hs' := hC.front hs
      exact ⟨⟨hself, hb hbase (hC.inPlace (hC.parensIf (hC.front hs')))⟩,
        hp (hproperty rfl) (hC.inPlace (hC.behind hs' rfl))⟩
    | false =>
      have hbases : C base.lexemes := by
        cases optional <;> exact hC.inPlace (hC.parensIf (hC.front hs))
      have hword : property.isWord = true := hwf.2
      refine ⟨⟨hself, hb hbase hbases⟩, ?_⟩
      cases property with
      | identifier => exact hname _ _
      | _ => cases hword
  call _ _ _ hc ha h hs := by
    obtain ⟨hcallee, hes⟩ := h.call
    have hs' := hC.front hs
    simp only [Expr.every, Bool.and_eq_true, everyExpr_iff]
    exact ⟨⟨hexpr _ h hs, hc hcallee (hC.inPlace (hC.front hs'))⟩,
      fun e he => ha e he (hes e he) (hC.exprs (hC.behind hs' rfl) e he)⟩
  new _ _ _ hc ha h hs := by
    obtain ⟨hcallee, hes⟩ := h.new
    have hs' := hC.front hs
    have hbehind := hC.behind (r := []) (hC.front hs') rfl
    simp only [Expr.every, Bool.and_eq_true, everyExpr_iff]
    exact ⟨⟨hexpr _ h hs, hc hcallee (hC.inPlace (hC.parensIf hbehind))⟩,
      fun e he => ha e he (hes e he) (hC.exprs (hC.behind hs' rfl) e he)⟩
  conditional _ _ _ _ ht hc ha h hs := by
    obtain ⟨htest, hconsequent, halternate⟩ := h.conditional
    have hs' := hC.front hs
    simp only [Expr.every, Bool.and_eq_true]
    exact ⟨⟨⟨hexpr _ h hs, ht htest (hC.inPlace (hC.front hs'))⟩,
      hc hconsequent (hC.inPlace (hC.behind hs' rfl))⟩,
      ha halternate (hC.inPlace (hC.behind hs rfl))⟩
  object ps _ hp h hs := by
    have hwf := h.1
    simp only [Expr.every, Bool.and_eq_true, everyProperty_iff]
    refine ⟨hexpr _ h hs, fun p hm => ?_⟩
    -- the value of a shorthand property is not printed, but it is a name
    cases hshort : p.shorthand with
    | false =>
      exact hp p hm (h.object p hm hshort)
        (hC.properties (hC.between (r := []) hs rfl) p hm hshort)
    | true =>
      have hproperty := propertiesWellFormed_iff.mp hwf p hm
      simp only [Property.WellFormed, hshort, if_true] at hproperty
      obtain ⟨-, span, hvalue⟩ := hproperty
      rw [hvalue]
      exact hname _ _
  array _ _ hi h hs := by
    simp only [Expr.every, Bool.and_eq_true, everyExpr_iff]
    exact ⟨hexpr _ h hs, fun e he =>
      hi e he (h.array e he) (hC.exprs (hC.between (r := []) hs rfl) e he)⟩
  arrowExpression _ _ _ hv h hs := by
    simp only [Expr.every, ArrowBody.every, Bool.and_eq_true]
    exact ⟨hexpr _ h hs, hv h.arrowExpression (hC.inPlace (hC.parensIf (hC.behind hs rfl)))⟩
  arrowBlock _ _ _ hb h hs := by
    have hbody := hC.between (r := []) (hC.behind hs rfl) rfl
    simp only [Expr.every, ArrowBody.every, Bool.and_eq_true, everyStmt_iff]
    exact ⟨hexpr _ h hs, fun t ht =>
      hb t ht (h.arrowBlock t ht) (hlines _ h.arrowBlock hbody t ht)⟩
  assignment _ op _ _ ht hv h hs := by
    obtain ⟨htarget, hvalue⟩ := h.assignment
    have hop : (Lexeme.mark op.symbol).kind.isDot = false := by cases op <;> rfl
    simp only [Expr.every, Bool.and_eq_true]
    exact ⟨⟨hexpr _ h hs, ht htarget (hC.inPlace (hC.front hs))⟩,
      hv hvalue (hC.inPlace (hC.behind hs hop))⟩
  expression _ hv h hs := by
    simp only [Stmt.every, Bool.and_eq_true]
    exact ⟨hstmt _ h hs, hv h.expression (hC.inPlace (hC.parensIf (hC.front hs)))⟩
  declaration _ _ hd h hs := by
    have hdeclared := hC.between (r := []) hs rfl
    simp only [Stmt.every, Bool.and_eq_true, everyDeclarator_iff]
    exact ⟨hstmt _ h hs, fun d hm e he =>
      hd d hm e he (h.declaration d hm e he) (hC.declarators hdeclared d hm e he)⟩
  function _ _ _ _ hb _ h hs := by
    obtain ⟨rfl, hbody⟩ := h.function
    have hblock := hC.behind (hC.front hs) rfl
    simp only [Stmt.every, everyDecorator?, Bool.and_eq_true, everyStmt_iff, and_true]
    exact ⟨hstmt _ h hs, fun t ht => hb t ht (hbody t ht) (hlines _ hbody hblock t ht)⟩
  return_ value hv h hs := by
    simp only [Stmt.every, Bool.and_eq_true, everyExpr?_iff]
    refine ⟨hstmt _ h hs, ?_⟩
    rintro e rfl
    exact hv e rfl (h.return_ e rfl) (hC.inPlace (hC.sameLine (hC.between (r := []) hs rfl)))
  if_ _ _ _ ht hc ha h hs := by
    obtain ⟨htest, hconsequent, halternate⟩ := h.if_
    have hs' := hC.front hs
    have hhead := hC.behind (r := [_]) (hC.front hs') rfl
    simp only [Stmt.every, Bool.and_eq_true, everyStmt?_iff]
    refine ⟨⟨⟨hstmt _ h hs, ht htest (hC.inPlace hhead)⟩,
      hc hconsequent (hC.behind hs' rfl)⟩, ?_⟩
    rintro t rfl
    exact ha t rfl (halternate t rfl) (hC.behind hs rfl)
  while_ _ _ ht hb h hs := by
    obtain ⟨htest, hbody⟩ := h.while_
    have hhead := hC.behind (r := [_]) (hC.front hs) rfl
    simp only [Stmt.every, Bool.and_eq_true]
    exact ⟨⟨hstmt _ h hs, ht htest (hC.inPlace hhead)⟩, hb hbody (hC.behind hs rfl)⟩
  for_ init _ _ _ _ he hd ht hu hb h hs := by
    have hwf := h.1
    obtain ⟨hfirst, htest, hupdate, hbody⟩ := h.for_
    have hs₁ := hC.front hs
    have hs₂ := hC.front hs₁
    have hhead := hC.behind (r := [_]) (hC.front hs₂) rfl
    -- what a loop starts with is printed without a semicolon, so its own lexemes are not shown
    have hparts : ∀ t ∈ init, t.every f' g' = true := by
      rintro t rfl
      have hform := hwf.1 t rfl
      cases t with
      | expression value =>
        simp only [Stmt.every, Bool.and_eq_true]
        exact ⟨hinit _ hform,
          he value rfl (hfirst _ rfl).expression (hC.inPlace hhead)⟩
      | declaration kind ds =>
        have hdeclared := hC.behind (r := []) hhead rfl
        simp only [Stmt.every, Bool.and_eq_true, everyDeclarator_iff]
        exact ⟨hinit _ hform, fun d hm e hme => hd kind ds rfl d hm e hme
          ((hfirst _ rfl).declaration d hm e hme) (hC.declarators hdeclared d hm e hme)⟩
      | _ => cases hform
    simp only [Stmt.every, Bool.and_eq_true, everyStmt?_iff, everyExpr?_iff]
    exact ⟨⟨⟨⟨hstmt _ h hs, hparts⟩,
      fun e hm => ht e hm (htest e hm) (hC.forPart (hC.behind hs₂ rfl) e hm)⟩,
      fun e hm => hu e hm (hupdate e hm) (hC.forPart (hC.behind hs₁ rfl) e hm)⟩,
      hb hbody (hC.behind hs rfl)⟩
  block _ hb h hs := by
    have hbody := hC.between (r := []) hs rfl
    simp only [Stmt.every, Bool.and_eq_true, everyStmt_iff]
    exact ⟨hstmt _ h hs, fun t ht => hb t ht (h.block t ht) (hlines _ h.block hbody t ht)⟩
  break_ h hs := hstmt _ h hs
  continue_ h hs := hstmt _ h hs
  import_ _ _ _ h hs := hstmt _ h hs
  export_ _ hd h hs := by
    simp only [Stmt.every, Bool.and_eq_true]
    exact ⟨hstmt _ h hs, hd h.export_ (hC.behind (r := []) hs rfl)⟩
  empty h hs := hstmt _ h hs
  elementStart _ _ _ ha h hs := by
    have hattributes := hC.between (r := [_]) hs rfl
    simp only [Stmt.every, Bool.and_eq_true, everyAttribute_iff]
    exact ⟨hstmt _ h hs, fun x e hm =>
      ha x e hm (h.elementStart x e hm) (hC.attributes hattributes x e hm)⟩
  elementEnd _ _ h hs := hstmt _ h hs
  element _ _ _ ha h hs := by
    have hattributes := hC.between (r := [_]) hs rfl
    simp only [Stmt.every, Bool.and_eq_true, everyAttribute_iff]
    exact ⟨hstmt _ h hs, fun x e hm =>
      ha x e hm (h.element x e hm) (hC.attributes hattributes x e hm)⟩
  decorator d ha h hs := by
    have hes := h.decorator
    have hself := hstmt _ h hs
    obtain ⟨name, es, span⟩ := d
    have harguments := hC.between (r := [_, _]) hs rfl
    simp only [Stmt.every, Decorator.every, Bool.and_eq_true, everyExpr_iff]
    exact ⟨hself, fun e he => ha e he (hes e he) (hC.exprs harguments e he)⟩

end Inherited

end MarkupScript
