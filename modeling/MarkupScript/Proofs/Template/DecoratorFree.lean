import MarkupScript.Proofs.Template.Lower
import MarkupScript.Proofs.Template.Ready

/-!
# Lowered programs have no decorators

Attaching takes the decorators that are statements, and lowering takes those of functions. Lowering
comes by every statement there is, so that no decorator is left in the end, however deep one looks:
also not in the arrow blocks of expressions, which become arguments of instructions if they stood in
attributes.
-/

namespace MarkupScript

/-- Whether a statement is neither a decorator nor a function with a decorator. -/
def Stmt.decoratorFree : Stmt → Bool
  | .decorator _ => false
  | .function _ _ _ own => own.isNone
  | _ => true

/-! ### The statements in a tree lie in blocks -/

section

variable (ok : Stmt → Bool)

/-- Whether all statements pass, however deep they lie. -/
def everywhere (b : List Stmt) : Prop := everyStmt (fun _ => true) ok b = true

variable {ok}

theorem everyExpr_iff_blocks {es : List Expr}
    (h : ∀ e ∈ es, e.every (fun _ => true) ok = true ↔ ∀ b ∈ e.arrowBlocks, everywhere ok b) :
    everyExpr (fun _ => true) ok es = true ↔ ∀ b ∈ exprsArrowBlocks es, everywhere ok b := by
  simp only [everyExpr_iff, mem_exprsArrowBlocks]
  constructor
  · rintro hes b ⟨e, he, hb⟩
    exact (h e he).mp (hes e he) b hb
  · exact fun hes e he => (h e he).mpr fun b hb => hes b ⟨e, he, hb⟩

/-- The statements in an expression are those in its arrow blocks. -/
theorem Expr.every_iff_blocks (e : Expr) :
    e.every (fun _ => true) ok = true ↔ ∀ b ∈ e.arrowBlocks, everywhere ok b := by
  refine ExprInduction.expr (P := fun e =>
    e.every (fun _ => true) ok = true ↔ ∀ b ∈ e.arrowBlocks, everywhere ok b) ?_ e
  constructor
  case atom =>
    intro e he
    cases e <;> simp_all [isAtom, arrowBlocks, every]
  case binary | member | assignment =>
    intros
    simp_all [every, arrowBlocks, or_imp, forall_and]
  case unary | update =>
    intros
    simp_all [every, arrowBlocks]
  case call | new =>
    intro callee arguments s hcallee harguments
    simp [every, arrowBlocks, hcallee, everyExpr_iff_blocks harguments, or_imp, forall_and]
  case conditional =>
    intros
    simp_all [every, arrowBlocks, or_imp, forall_and, and_assoc]
  case object =>
    intro properties s h
    simp only [every, arrowBlocks, Bool.true_and, everyProperty_iff, mem_propertiesArrowBlocks]
    constructor
    · rintro hps b ⟨p, hp, hb⟩
      exact (h p hp).mp (hps p hp) b hb
    · exact fun hps p hp => (h p hp).mpr fun b hb => hps b ⟨p, hp, hb⟩
  case array =>
    intro items s h
    simp [every, arrowBlocks, everyExpr_iff_blocks h]
  case arrowExpression =>
    intro params value s h
    simpa [every, ArrowBody.every, arrowBlocks, ArrowBody.arrowBlocks] using h
  case arrowBlock =>
    intro params body s
    simp [every, ArrowBody.every, arrowBlocks, ArrowBody.arrowBlocks, everywhere]

theorem everyExpr?_iff_blocks {e : Option Expr} :
    everyExpr? (fun _ => true) ok e = true ↔ ∀ b ∈ exprArrowBlocks? e, everywhere ok b := by
  cases e with
  | none => simp [everyExpr?, exprArrowBlocks?]
  | some e => exact e.every_iff_blocks

theorem everyDeclarator_iff_blocks {ds : List Declarator} :
    everyDeclarator (fun _ => true) ok ds = true ↔
      ∀ b ∈ declaratorsArrowBlocks ds, everywhere ok b := by
  simp only [everyDeclarator_iff, Expr.every_iff_blocks, mem_declaratorsArrowBlocks]
  constructor
  · rintro h b ⟨d, hd, e, he, hb⟩
    exact h d hd e he b hb
  · exact fun h d hd e he b hb => h b ⟨d, hd, e, he, hb⟩

theorem everyAttribute_iff_blocks {as : List Attribute} :
    everyAttribute (fun _ => true) ok as = true ↔
      ∀ b ∈ attributesArrowBlocks as, everywhere ok b := by
  simp only [everyAttribute_iff, Expr.every_iff_blocks, mem_attributesArrowBlocks]
  constructor
  · rintro h b ⟨x, e, ha, hb⟩
    exact h x e ha b hb
  · exact fun h x e ha b hb => h b ⟨x, e, ha, hb⟩

end

/-- The statements in a statement are itself, those in its arrow blocks and the nested ones, unless
the start of a loop holds more. -/
theorem Stmt.every_decoratorFree_iff {s : Stmt} (h : s.startsPlain = true) :
    s.every (fun _ => true) decoratorFree = true ↔ s.decoratorFree = true ∧
      (∀ b ∈ s.arrowBlocks, everywhere decoratorFree b) ∧ everywhere decoratorFree s.nested := by
  cases s with
  | expression value =>
    simp [every, decoratorFree, arrowBlocks, nested, everywhere, everyStmt, value.every_iff_blocks]
  | declaration kind ds =>
    simp [every, decoratorFree, arrowBlocks, nested, everywhere, everyStmt,
      everyDeclarator_iff_blocks]
  | function name params body own =>
    cases own <;>
      simp [every, decoratorFree, arrowBlocks, nested, everywhere, everyDecorator?]
  | return_ value =>
    simp [every, decoratorFree, arrowBlocks, nested, everywhere, everyStmt, everyExpr?_iff_blocks]
  | if_ test consequent alternate =>
    cases alternate <;>
      simp [every, decoratorFree, arrowBlocks, nested, everywhere, everyStmt, everyStmt?,
        test.every_iff_blocks, and_assoc]
  | while_ test body =>
    simp [every, decoratorFree, arrowBlocks, nested, everywhere, everyStmt, test.every_iff_blocks]
  | for_ init test update body =>
    have hinit : everyStmt? (fun _ => true) decoratorFree init = true ↔
        ∀ b ∈ stmtArrowBlocks? init, everywhere decoratorFree b := by
      cases init with
      | none => simp [everyStmt?, stmtArrowBlocks?]
      | some init =>
        cases init with
        | expression value =>
          simp [everyStmt?, every, decoratorFree, stmtArrowBlocks?, arrowBlocks,
            value.every_iff_blocks]
        | declaration kind ds =>
          simp [everyStmt?, every, decoratorFree, stmtArrowBlocks?, arrowBlocks,
            everyDeclarator_iff_blocks]
        | _ => cases h
    simp [every, decoratorFree, arrowBlocks, nested, everyStmt, hinit, everyExpr?_iff_blocks,
      or_imp, forall_and, and_assoc, everywhere]
  | block body => simp [every, decoratorFree, arrowBlocks, nested, everywhere]
  | export_ declared => simp [every, decoratorFree, arrowBlocks, nested, everywhere, everyStmt]
  | elementStart name attributes span =>
    simp [every, decoratorFree, arrowBlocks, nested, everywhere, everyStmt,
      everyAttribute_iff_blocks]
  | element name attributes span =>
    simp [every, decoratorFree, arrowBlocks, nested, everywhere, everyStmt,
      everyAttribute_iff_blocks]
  | decorator d => simp [every, decoratorFree]
  | _ => simp [every, decoratorFree, arrowBlocks, nested, everywhere, everyStmt]

/-! ### Lowering -/

theorem everyExpr_attributeItems {ok : Stmt → Bool} (span : Span) {as : List Attribute}
    (h : everyAttribute (fun _ => true) ok as = true) :
    everyExpr (fun _ => true) ok (attributeItems span as) = true := by
  induction as with
  | nil => rfl
  | cons a as ih =>
    cases a <;> simp_all [everyAttribute, attributeItems, everyExpr, Expr.every]

theorem everyExpr_elementArguments {ok : Stmt → Bool} (name : String) (span : Span)
    {as : List Attribute} (h : everyAttribute (fun _ => true) ok as = true) :
    everyExpr (fun _ => true) ok (elementArguments name as span) = true := by
  cases as with
  | nil => rfl
  | cons a as => simp [elementArguments, everyExpr, Expr.every, everyExpr_attributeItems span h]

theorem every_instructionCall (options : Options) (instruction : Instruction) (index : Nat)
    {arguments : List Expr} (span : Span)
    (h : everyExpr (fun _ => true) Stmt.decoratorFree arguments = true) :
    (options.instructionCall instruction index arguments span).every (fun _ => true)
      Stmt.decoratorFree = true := by
  simp [Options.instructionCall, Stmt.every, Stmt.decoratorFree, Expr.every, everyExpr, h]

/-- An instruction takes over what was in the markup. -/
theorem Lower.leaf_decoratorFree {options : Options} {s s' : Stmt} {st st' : Lowering}
    (h : s.every (fun _ => true) Stmt.decoratorFree = true)
    (hleaf : leaf options s st = .ok (s', st')) :
    s'.every (fun _ => true) Stmt.decoratorFree = true := by
  obtain ⟨used, none | t⟩ := st
  · cases hleaf
    exact h
  · cases hm : s.isMarkup with
    | false =>
      rw [leaf_of_not_markup options hm, pure_eq_ok] at hleaf
      exact hleaf.1 ▸ h
    | true =>
      cases s with
      | elementStart name attributes span =>
        cases hleaf
        exact every_instructionCall _ _ _ _
          (everyExpr_elementArguments name span (by simpa [Stmt.every, Stmt.decoratorFree] using h))
      | element name attributes span =>
        cases hleaf
        exact every_instructionCall _ _ _ _
          (everyExpr_elementArguments name span (by simpa [Stmt.every, Stmt.decoratorFree] using h))
      | elementEnd name span =>
        rw [leaf_elementEnd] at hleaf
        split at hleaf
        · cases hleaf
        · cases hleaf
          exact every_instructionCall _ _ _ _ rfl
      | expression value =>
        rw [leaf_literal options used t hm] at hleaf
        cases hleaf
        exact every_instructionCall _ _ _ _
          (by simpa [everyExpr, Stmt.every, Stmt.decoratorFree] using h)
      | _ => cases hm

section

variable {options : Options}

theorem everywhere_of_mapM {f : Stmt → Lower Stmt} {ok : Stmt → Bool} {ss ss' : List Stmt}
    {st st' : Lowering} (hm : ss.mapM f st = .ok (ss', st'))
    (h : ∀ s ∈ ss, ∀ st s' st', f s st = .ok (s', st') → s'.every (fun _ => true) ok = true) :
    everywhere ok ss' := by
  refine everyStmt_iff.mpr fun s' hs' => ?_
  have hall := Lower.forall₂_of_mapM (R := fun _ t => t.every (fun _ => true) ok = true) h hm
  obtain ⟨_, -, hevery⟩ := exists_of_forall₂ hall hs'
  exact hevery

/-- Lowering leaves no decorator anywhere. -/
theorem Stmt.lower_decoratorFree (s : Stmt) (h : ∀ t ∈ s.walk true, t.Ready) :
    ∀ st s' st', s.lower (lowerDeep options) options st = .ok (s', st') →
      s'.every (fun _ => true) decoratorFree = true := by
  induction s using Stmt.induction with
  | step s ihBlocks ihNested =>
    intro st s' st' hlower
    have hready : s.Ready := h s (mem_walk.mpr (.inr (.inl rfl)))
    have hnested (st ts st') (hts : s.nested.mapM (lower (lowerDeep options) options) st =
        .ok (ts, st')) : everywhere decoratorFree ts :=
      everywhere_of_mapM hts fun t ht => ihNested t ht fun u hu =>
        h u (mem_walk.mpr (.inr (.inr (mem_walkAll.mpr ⟨t, ht, hu⟩))))
    cases hf : s.isFunction with
    | true =>
      cases s with
      | function name params body own =>
        obtain ⟨body', st₁, hbody, rfl, -⟩ := lower_function_eq_ok.mp hlower
        simpa [every, decoratorFree, everyDecorator?, everywhere] using hnested _ _ _ hbody
      | _ => cases hf
    | false =>
      obtain ⟨bs, st₁, ts, st₂, hbs, hts, hleaf⟩ := (lower_eq_ok hf).mp hlower
      have hentered : s.entered true = s.arrowBlocks := by simp [entered]
      have hblocks := Lower.forall₂_of_mapM (R := fun _ b => everywhere decoratorFree b)
        (fun b hb st b' st' hb' => by
          obtain ⟨st₁, hm, -⟩ := lowerDeep_eq_ok.mp hb'
          exact everywhere_of_mapM hm fun t ht => ihBlocks b hb t ht fun u hu =>
            h u (mem_walk.mpr (.inl ⟨b, hentered ▸ hb, mem_walkAll.mpr ⟨t, ht, hu⟩⟩))) hbs
      have hlen : ts.length = (s.fill bs).nested.length := by
        rw [nested_fill, Lower.length_of_mapM hts]
      refine Lower.leaf_decoratorFree (s := (s.fill bs).withNested (ts.map some)) ?_ hleaf
      rw [every_decoratorFree_iff (by simpa using hready.startsPlain), arrowBlocks_withNested,
        s.arrowBlocks_fill bs hblocks.length_eq.symm, nested_withNested_some hlen]
      refine ⟨?_, fun b hb => ?_, hnested _ _ _ hts⟩
      · cases s with
        | function => cases hf
        | decorator => cases hready.noDecorator
        | _ => rfl
      · obtain ⟨_, -, hfree⟩ := exists_of_forall₂ hblocks hb
        exact hfree

end

theorem Options.instructionImport_decoratorFree (options : Options) (used : List Instruction) :
    everywhere Stmt.decoratorFree (options.instructionImport used) := by
  simp only [instructionImport]
  split <;> rfl

/-- In a program that was lowered no decorator is left, if it was ready to be lowered. -/
theorem Program.lowerTemplates_decoratorFree {p q : Program} {options : Options}
    (h : ∀ t ∈ walkAll true p.body, t.Ready) (hq : p.lowerTemplates options = .ok q) :
    q.every (fun _ => true) Stmt.decoratorFree = true := by
  obtain ⟨body, st, hbody, rfl⟩ := lowerTemplates_eq_ok.mp hq
  obtain ⟨st₁, hm, -⟩ := lowerDeep_eq_ok.mp hbody
  have hfree : everywhere Stmt.decoratorFree body :=
    everywhere_of_mapM hm fun s hs => s.lower_decoratorFree fun t ht =>
      h t (mem_walkAll.mpr ⟨s, hs, ht⟩)
  refine everyStmt_iff.mpr fun s hs => ?_
  rcases List.mem_append.mp hs with hs | hs
  · exact everyStmt_iff.mp (options.instructionImport_decoratorFree st.used) s hs
  · exact everyStmt_iff.mp hfree s hs

end MarkupScript
