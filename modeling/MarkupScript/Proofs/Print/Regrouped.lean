import MarkupScript.Proofs.Print.ReadsBack
import MarkupScript.Proofs.Tree.ArrowBlocks
import MarkupScript.Proofs.Tree.Spans

/-!
# What `new` takes for its callee

The text of an expression puts the callee of `new` in parentheses if it is a call or looser than
one. But for its callee `new` takes no more than a name or literal and the names behind dots that
follow, and then the first arguments it finds. So the text of any other callee is taken apart: that
of `new (a[b])(c)` is `new a[b](c)`, which means `(new a)[b](c)`. `Expr.regrouped` says what an
expression becomes in this way.
-/

namespace MarkupScript

namespace Expr

/-- What `new` in front of a chain means, if it does not take all of the chain for its callee. -/
def underNew : Expr → Expr
  | member base property computed optional s =>
    if base.isPlainChain then member (new base [] s) property computed optional s
    else member base.underNew property computed optional s
  | call callee arguments s =>
    if callee.isPlainChain then new callee arguments s
    else call callee.underNew arguments s
  | e => e

/-- Whether the text of a chain starts with `new`. -/
def startsWithNew : Expr → Bool
  | member base _ _ _ _ => base.startsWithNew
  | call callee _ _ => callee.startsWithNew
  | new _ _ _ => true
  | _ => false

/-- Whether an expression has a text of its own on one line: no number without a literal, and no
arrow function with a block. -/
def isInline : Expr → Bool
  | number value _ => value.isFinite
  | arrow _ (.block _) _ => false
  | _ => true

/-- Whether `new` takes all of its callee. -/
def takesCallee : Expr → Bool
  | new callee _ _ => callee.isCall || callee.isPlainChain
  | _ => true

/-- Whether `new` is not directly behind another `new` in the text. -/
def newIsApart : Expr → Bool
  | new callee _ _ => callee.isCall || !callee.startsWithNew
  | _ => true

theorem startsWithNew_of_isPlainChain : ∀ {e : Expr}, e.isPlainChain = true →
    e.startsWithNew = false
  | member base _ _ _ _, h => by
    simp only [isPlainChain, Bool.and_eq_true] at h
    exact startsWithNew_of_isPlainChain (e := base) h.2
  | call .., h | new .., h => by cases h
  | number .., _ | string .., _ | boolean .., _ | null .., _ | this_ .., _ | identifier .., _
  | binary .., _ | unary .., _ | update .., _ | conditional .., _ | object .., _ | array .., _
  | arrow .., _ | assignment .., _ => rfl

theorem newIsApart_of_takesCallee {e : Expr} (h : e.takesCallee = true) : e.newIsApart = true := by
  cases e with
  | new callee arguments s =>
    simp only [takesCallee, newIsApart, Bool.or_eq_true, Bool.not_eq_true'] at h ⊢
    exact h.imp_right startsWithNew_of_isPlainChain
  | _ => rfl

/-- Without arrow blocks, tests of expressions are all that matters. -/
theorem every_of_isInline {f f' : Expr → Bool} {g g' : Stmt → Bool}
    (hf : ∀ e : Expr, e.isInline = true → f e = true → f' e = true) :
    ExprInduction fun e => e.every isInline (fun _ => true) = true → e.every f g = true →
      e.every f' g' = true where
  atom e he hi h := by
    cases e <;> first | (cases he; done) | exact hf _ hi h
  binary _ _ _ _ hl hr hi h := by
    have hself := hf _ (onExpr_of_every hi) (onExpr_of_every h)
    simp only [every, Bool.and_eq_true] at hi h ⊢
    exact ⟨⟨hself, hl hi.1.2 h.1.2⟩, hr hi.2 h.2⟩
  unary _ _ _ ho hi h := by
    have hself := hf _ (onExpr_of_every hi) (onExpr_of_every h)
    simp only [every, Bool.and_eq_true] at hi h ⊢
    exact ⟨hself, ho hi.2 h.2⟩
  update _ _ _ _ ho hi h := by
    have hself := hf _ (onExpr_of_every hi) (onExpr_of_every h)
    simp only [every, Bool.and_eq_true] at hi h ⊢
    exact ⟨hself, ho hi.2 h.2⟩
  member _ _ _ _ _ hb hp hi h := by
    have hself := hf _ (onExpr_of_every hi) (onExpr_of_every h)
    simp only [every, Bool.and_eq_true] at hi h ⊢
    exact ⟨⟨hself, hb hi.1.2 h.1.2⟩, hp hi.2 h.2⟩
  call _ _ _ hc ha hi h := by
    have hself := hf _ (onExpr_of_every hi) (onExpr_of_every h)
    simp only [every, Bool.and_eq_true, everyExpr_iff] at hi h ⊢
    exact ⟨⟨hself, hc hi.1.2 h.1.2⟩, fun e he => ha e he (hi.2 e he) (h.2 e he)⟩
  new _ _ _ hc ha hi h := by
    have hself := hf _ (onExpr_of_every hi) (onExpr_of_every h)
    simp only [every, Bool.and_eq_true, everyExpr_iff] at hi h ⊢
    exact ⟨⟨hself, hc hi.1.2 h.1.2⟩, fun e he => ha e he (hi.2 e he) (h.2 e he)⟩
  conditional _ _ _ _ ht hc ha hi h := by
    have hself := hf _ (onExpr_of_every hi) (onExpr_of_every h)
    simp only [every, Bool.and_eq_true] at hi h ⊢
    exact ⟨⟨⟨hself, ht hi.1.1.2 h.1.1.2⟩, hc hi.1.2 h.1.2⟩, ha hi.2 h.2⟩
  object _ _ hp hi h := by
    have hself := hf _ (onExpr_of_every hi) (onExpr_of_every h)
    simp only [every, Bool.and_eq_true, everyProperty_iff] at hi h ⊢
    exact ⟨hself, fun p hm => hp p hm (hi.2 p hm) (h.2 p hm)⟩
  array _ _ ha hi h := by
    have hself := hf _ (onExpr_of_every hi) (onExpr_of_every h)
    simp only [every, Bool.and_eq_true, everyExpr_iff] at hi h ⊢
    exact ⟨hself, fun e he => ha e he (hi.2 e he) (h.2 e he)⟩
  arrowExpression _ _ _ hv hi h := by
    have hself := hf _ (onExpr_of_every hi) (onExpr_of_every h)
    simp only [every, ArrowBody.every, Bool.and_eq_true] at hi h ⊢
    exact ⟨hself, hv hi.2 h.2⟩
  arrowBlock _ _ _ hi := by
    simp only [every, isInline, Bool.false_and, Bool.false_eq_true] at hi
  assignment _ _ _ _ ht hv hi h := by
    have hself := hf _ (onExpr_of_every hi) (onExpr_of_every h)
    simp only [every, Bool.and_eq_true] at hi h ⊢
    exact ⟨⟨hself, ht hi.1.2 h.1.2⟩, hv hi.2 h.2⟩

end Expr

mutual

/-- What the text of an expression without arrow blocks means. -/
def Expr.regrouped : Expr → Expr
  | .binary left op right s => .binary left.regrouped op right.regrouped s
  | .unary op operand s => .unary op operand.regrouped s
  | .update op inFront operand s => .update op inFront operand.regrouped s
  | .member base property computed optional s =>
    .member base.regrouped property.regrouped computed optional s
  | .call callee arguments s => .call callee.regrouped (exprsRegrouped arguments) s
  | .new callee arguments s =>
    if callee.isCall || callee.isPlainChain then
      .new callee.regrouped (exprsRegrouped arguments) s
    else .call callee.regrouped.underNew (exprsRegrouped arguments) s
  | .conditional test consequent alternate s =>
    .conditional test.regrouped consequent.regrouped alternate.regrouped s
  | .object properties s => .object (propertiesRegrouped properties) s
  | .array items s => .array (exprsRegrouped items) s
  | .arrow params (.expression value) s => .arrow params (.expression value.regrouped) s
  | .assignment target op value s => .assignment target.regrouped op value.regrouped s
  | e => e

/-- What the texts of expressions mean. -/
def exprsRegrouped : List Expr → List Expr
  | [] => []
  | e :: rest => e.regrouped :: exprsRegrouped rest

/-- What the texts of properties mean. -/
def propertiesRegrouped : List Property → List Property
  | [] => []
  | ⟨key, value, shorthand⟩ :: rest =>
    ⟨key, value.regrouped, shorthand⟩ :: propertiesRegrouped rest

end

theorem exprsRegrouped_eq (es : List Expr) : exprsRegrouped es = es.map Expr.regrouped := by
  induction es with
  | nil => rfl
  | cons e es ih => simp [exprsRegrouped, ih]

theorem propertiesRegrouped_eq (ps : List Property) :
    propertiesRegrouped ps = ps.map fun p => { p with value := p.value.regrouped } := by
  induction ps with
  | nil => rfl
  | cons p ps ih =>
    obtain ⟨key, value, shorthand⟩ := p
    simp [propertiesRegrouped, ih]

theorem Expr.isTarget_regrouped {e : Expr} (h : e.isTarget = true) :
    e.regrouped.isTarget = true := by
  cases e <;> first | rfl | cases h

/-! ### What is not taken apart -/

section

open MarkupScript.Expr

theorem exprsRegrouped_eq_iff {es : List Expr}
    (h : ∀ e ∈ es, e.regrouped.withoutSpans = e.withoutSpans ↔
      e.every takesCallee (fun _ => true) = true) :
    exprsWithoutSpans (exprsRegrouped es) = exprsWithoutSpans es ↔
      everyExpr takesCallee (fun _ => true) es = true := by
  rw [exprsRegrouped_eq, exprsWithoutSpans_eq, exprsWithoutSpans_eq, List.map_map,
    List.map_inj_left, everyExpr_iff]
  exact forall₂_congr h

theorem propertiesRegrouped_eq_iff {ps : List Property}
    (h : ∀ p ∈ ps, p.value.regrouped.withoutSpans = p.value.withoutSpans ↔
      p.value.every takesCallee (fun _ => true) = true) :
    propertiesWithoutSpans (propertiesRegrouped ps) = propertiesWithoutSpans ps ↔
      everyProperty takesCallee (fun _ => true) ps = true := by
  rw [propertiesRegrouped_eq, propertiesWithoutSpans_eq, propertiesWithoutSpans_eq, List.map_map,
    List.map_inj_left, everyProperty_iff]
  refine forall₂_congr fun p hp => ?_
  rw [← h p hp]
  simp [Property.withoutSpans]

/-- The text of an expression means the expression just if every `new` takes all of its callee. -/
theorem Expr.regrouped_eq_iff :
    ExprInduction fun e => e.every isInline (fun _ => true) = true →
      (e.regrouped.withoutSpans = e.withoutSpans ↔
        e.every takesCallee (fun _ => true) = true) where
  atom e he _ := by
    cases e <;> first | (cases he; done) | simp [regrouped, every, takesCallee]
  binary _ _ _ _ hl hr h := by
    simp only [every, Bool.and_eq_true] at h
    simp [regrouped, withoutSpans, every, takesCallee, hl h.1.2, hr h.2]
  unary _ _ _ ho h := by
    simp only [every, Bool.and_eq_true] at h
    simp [regrouped, withoutSpans, every, takesCallee, ho h.2]
  update _ _ _ _ ho h := by
    simp only [every, Bool.and_eq_true] at h
    simp [regrouped, withoutSpans, every, takesCallee, ho h.2]
  member _ _ _ _ _ hb hp h := by
    simp only [every, Bool.and_eq_true] at h
    simp [regrouped, withoutSpans, every, takesCallee, hb h.1.2, hp h.2]
  call _ _ _ hc ha h := by
    simp only [every, Bool.and_eq_true, everyExpr_iff] at h
    simp [regrouped, withoutSpans, every, takesCallee, hc h.1.2,
      exprsRegrouped_eq_iff fun e he => ha e he (h.2 e he)]
  new callee _ _ hc ha h := by
    simp only [every, Bool.and_eq_true, everyExpr_iff] at h
    cases htakes : callee.isCall || callee.isPlainChain <;>
      simp [regrouped, withoutSpans, every, takesCallee, htakes, hc h.1.2,
        exprsRegrouped_eq_iff fun e he => ha e he (h.2 e he)]
  conditional _ _ _ _ ht hc ha h := by
    simp only [every, Bool.and_eq_true] at h
    simp [regrouped, withoutSpans, every, takesCallee, ht h.1.1.2, hc h.1.2, ha h.2, and_assoc]
  object _ _ hp h := by
    simp only [every, Bool.and_eq_true, everyProperty_iff] at h
    simp [regrouped, withoutSpans, every, takesCallee,
      propertiesRegrouped_eq_iff fun p hm => hp p hm (h.2 p hm)]
  array _ _ hi h := by
    simp only [every, Bool.and_eq_true, everyExpr_iff] at h
    simp [regrouped, withoutSpans, every, takesCallee,
      exprsRegrouped_eq_iff fun e he => hi e he (h.2 e he)]
  arrowExpression _ _ _ hv h := by
    simp only [every, ArrowBody.every, Bool.and_eq_true] at h
    simp [regrouped, withoutSpans, ArrowBody.withoutSpans, every, ArrowBody.every, takesCallee,
      hv h.2]
  arrowBlock _ _ _ h := by
    simp only [every, isInline, Bool.false_and, Bool.false_eq_true] at h
  assignment _ _ _ _ ht hv h := by
    simp only [every, Bool.and_eq_true] at h
    simp [regrouped, withoutSpans, every, takesCallee, ht h.1.2, hv h.2]

end

end MarkupScript
