import MarkupScript.Proofs.Tree.ArrowBlocks

/-!
# Depth and size of arrow blocks

An arrow block lies less deep than the statement around it and is smaller, so that one can go down
through arrow blocks by recursion.
-/

namespace MarkupScript

/-! ### Where a block stands -/

theorem mem_exprsArrowBlocks {es : List Expr} {b : List Stmt} :
    b ∈ exprsArrowBlocks es ↔ ∃ e ∈ es, b ∈ e.arrowBlocks := by
  induction es with
  | nil => simp [exprsArrowBlocks]
  | cons e es ih => simp [exprsArrowBlocks, ih]

theorem mem_propertiesArrowBlocks {ps : List Property} {b : List Stmt} :
    b ∈ propertiesArrowBlocks ps ↔ ∃ p ∈ ps, b ∈ p.value.arrowBlocks := by
  induction ps with
  | nil => simp [propertiesArrowBlocks]
  | cons p ps ih =>
    obtain ⟨key, value, shorthand⟩ := p
    simp [propertiesArrowBlocks, ih]

theorem mem_exprArrowBlocks? {e : Option Expr} {b : List Stmt} :
    b ∈ exprArrowBlocks? e ↔ ∃ x ∈ e, b ∈ x.arrowBlocks := by
  cases e <;> simp [exprArrowBlocks?]

theorem mem_declaratorsArrowBlocks {ds : List Declarator} {b : List Stmt} :
    b ∈ declaratorsArrowBlocks ds ↔ ∃ d ∈ ds, ∃ e ∈ d.init, b ∈ e.arrowBlocks := by
  induction ds with
  | nil => simp [declaratorsArrowBlocks]
  | cons d ds ih =>
    obtain ⟨name, init⟩ := d
    simp [declaratorsArrowBlocks, mem_exprArrowBlocks?, ih]

theorem mem_attributesArrowBlocks {as : List Attribute} {b : List Stmt} :
    b ∈ attributesArrowBlocks as ↔ ∃ x e, .braced x e ∈ as ∧ b ∈ e.arrowBlocks := by
  induction as with
  | nil => simp [attributesArrowBlocks]
  | cons a as ih =>
    cases a <;> simp [attributesArrowBlocks, Attribute.arrowBlocks, ih, or_and_right, exists_or,
      and_assoc]

/-! ### Blocks are smaller and less deep -/

theorem exprsArrowDepth_le {es : List Expr} {n : Nat} :
    exprsArrowDepth es ≤ n ↔ ∀ e ∈ es, e.arrowDepth ≤ n := by
  induction es with
  | nil => simp [exprsArrowDepth]
  | cons e es ih => simp only [exprsArrowDepth, Nat.max_le, ih, List.forall_mem_cons]

theorem propertiesArrowDepth_le {ps : List Property} {n : Nat} :
    propertiesArrowDepth ps ≤ n ↔ ∀ p ∈ ps, p.value.arrowDepth ≤ n := by
  induction ps with
  | nil => simp [propertiesArrowDepth]
  | cons p ps ih =>
    obtain ⟨key, value, shorthand⟩ := p
    simp only [propertiesArrowDepth, Nat.max_le, ih, List.forall_mem_cons]

theorem exprArrowDepth?_le {e : Option Expr} {n : Nat} :
    exprArrowDepth? e ≤ n ↔ ∀ x ∈ e, x.arrowDepth ≤ n := by
  cases e <;> simp [exprArrowDepth?]

theorem declaratorsArrowDepth_le {ds : List Declarator} {n : Nat} :
    declaratorsArrowDepth ds ≤ n ↔ ∀ d ∈ ds, ∀ e ∈ d.init, e.arrowDepth ≤ n := by
  induction ds with
  | nil => simp [declaratorsArrowDepth]
  | cons d ds ih =>
    obtain ⟨name, init⟩ := d
    simp only [declaratorsArrowDepth, Nat.max_le, exprArrowDepth?_le, ih, List.forall_mem_cons]

theorem attributesArrowDepth_le {as : List Attribute} {n : Nat} :
    attributesArrowDepth as ≤ n ↔ ∀ x e, .braced x e ∈ as → e.arrowDepth ≤ n := by
  induction as with
  | nil => simp [attributesArrowDepth]
  | cons a as ih =>
    cases a with
    | braced name value =>
      simp only [attributesArrowDepth, Nat.max_le, ih, List.mem_cons, Attribute.braced.injEq]
      constructor
      · rintro ⟨hv, h⟩ x e (⟨-, rfl⟩ | hm)
        · exact hv
        · exact h x e hm
      · exact fun h => ⟨h name value (.inl ⟨rfl, rfl⟩), fun x e hm => h x e (.inr hm)⟩
    | _ => simp [attributesArrowDepth, ih]

theorem stmtsArrowDepth_le {ss : List Stmt} {n : Nat} :
    stmtsArrowDepth ss ≤ n ↔ ∀ s ∈ ss, s.arrowDepth ≤ n := by
  induction ss with
  | nil => simp [stmtsArrowDepth]
  | cons s ss ih => simp only [stmtsArrowDepth, Nat.max_le, ih, List.forall_mem_cons]

theorem exprs_block_lt {es : List Expr}
    (h : ∀ e ∈ es, ∀ b ∈ e.arrowBlocks, stmtsArrowDepth b < e.arrowDepth ∧ sizeOf b < sizeOf e)
    {b : List Stmt} (hb : b ∈ exprsArrowBlocks es) :
    stmtsArrowDepth b < exprsArrowDepth es ∧ sizeOf b < sizeOf es := by
  obtain ⟨e, he, hb⟩ := mem_exprsArrowBlocks.mp hb
  have hdepth := exprsArrowDepth_le.mp (Nat.le_refl _) e he
  have hsize := List.sizeOf_lt_of_mem he
  have := h e he b hb
  omega

theorem properties_block_lt {ps : List Property}
    (h : ∀ p ∈ ps, ∀ b ∈ p.value.arrowBlocks,
      stmtsArrowDepth b < p.value.arrowDepth ∧ sizeOf b < sizeOf p.value)
    {b : List Stmt} (hb : b ∈ propertiesArrowBlocks ps) :
    stmtsArrowDepth b < propertiesArrowDepth ps ∧ sizeOf b < sizeOf ps := by
  obtain ⟨p, hp, hb⟩ := mem_propertiesArrowBlocks.mp hb
  have hdepth := propertiesArrowDepth_le.mp (Nat.le_refl _) p hp
  have hsize := List.sizeOf_lt_of_mem hp
  have hvalue : sizeOf p.value < sizeOf p := by
    cases p
    simp only [Property.mk.sizeOf_spec]
    omega
  have := h p hp b hb
  omega

/-- An arrow block lies less deep than the expression around it, and is smaller. -/
theorem Expr.block_lt (e : Expr) :
    ∀ b ∈ e.arrowBlocks, stmtsArrowDepth b < e.arrowDepth ∧ sizeOf b < sizeOf e := by
  refine ExprInduction.expr (P := fun e => ∀ b ∈ e.arrowBlocks,
    stmtsArrowDepth b < e.arrowDepth ∧ sizeOf b < sizeOf e) ?_ e
  constructor
  case atom =>
    intro e he
    cases e <;> simp_all [isAtom, arrowBlocks]
  case binary =>
    intro left op right s hleft hright b hb
    simp only [arrowDepth, Expr.binary.sizeOf_spec]
    rcases List.mem_append.mp hb with hb | hb
    · have := hleft b hb
      omega
    · have := hright b hb
      omega
  case unary =>
    intro op operand s h b hb
    have := h b hb
    simp only [arrowDepth, Expr.unary.sizeOf_spec]
    omega
  case update =>
    intro op inFront operand s h b hb
    have := h b hb
    simp only [arrowDepth, Expr.update.sizeOf_spec]
    omega
  case member =>
    intro object property computed optional s hobject hproperty b hb
    simp only [arrowDepth, Expr.member.sizeOf_spec]
    rcases List.mem_append.mp hb with hb | hb
    · have := hobject b hb
      omega
    · have := hproperty b hb
      omega
  case call =>
    intro callee arguments s hcallee harguments b hb
    simp only [arrowDepth, Expr.call.sizeOf_spec]
    rcases List.mem_append.mp hb with hb | hb
    · have := hcallee b hb
      omega
    · have := exprs_block_lt harguments hb
      omega
  case new =>
    intro callee arguments s hcallee harguments b hb
    simp only [arrowDepth, Expr.new.sizeOf_spec]
    rcases List.mem_append.mp hb with hb | hb
    · have := hcallee b hb
      omega
    · have := exprs_block_lt harguments hb
      omega
  case conditional =>
    intro test consequent alternate s htest hconsequent halternate b hb
    simp only [arrowBlocks, List.mem_append] at hb
    simp only [arrowDepth, Expr.conditional.sizeOf_spec]
    rcases hb with hb | hb | hb
    · have := htest b hb
      omega
    · have := hconsequent b hb
      omega
    · have := halternate b hb
      omega
  case object =>
    intro properties s h b hb
    have := properties_block_lt h (b := b) hb
    simp only [arrowDepth, Expr.object.sizeOf_spec]
    omega
  case array =>
    intro items s h b hb
    have := exprs_block_lt h (b := b) hb
    simp only [arrowDepth, Expr.array.sizeOf_spec]
    omega
  case arrowExpression =>
    intro params value s h b hb
    have := h b hb
    simp only [arrowDepth, ArrowBody.arrowDepth, Expr.arrow.sizeOf_spec,
      ArrowBody.expression.sizeOf_spec]
    omega
  case arrowBlock =>
    intro params body s b hb
    obtain rfl := List.mem_singleton.mp hb
    simp only [arrowDepth, ArrowBody.arrowDepth, Expr.arrow.sizeOf_spec,
      ArrowBody.block.sizeOf_spec]
    omega
  case assignment =>
    intro target op value s htarget hvalue b hb
    simp only [arrowDepth, Expr.assignment.sizeOf_spec]
    rcases List.mem_append.mp hb with hb | hb
    · have := htarget b hb
      omega
    · have := hvalue b hb
      omega

theorem expr?_block_lt {e : Option Expr} {b : List Stmt} (hb : b ∈ exprArrowBlocks? e) :
    stmtsArrowDepth b < exprArrowDepth? e ∧ sizeOf b < sizeOf e := by
  obtain ⟨x, rfl, hb⟩ := mem_exprArrowBlocks?.mp hb
  have := x.block_lt b hb
  simp only [exprArrowDepth?, Option.some.sizeOf_spec]
  omega

theorem declarators_block_lt {ds : List Declarator} {b : List Stmt}
    (hb : b ∈ declaratorsArrowBlocks ds) :
    stmtsArrowDepth b < declaratorsArrowDepth ds ∧ sizeOf b < sizeOf ds := by
  obtain ⟨⟨name, init⟩, hd, e, rfl, hb⟩ := mem_declaratorsArrowBlocks.mp hb
  have hdepth := declaratorsArrowDepth_le.mp (Nat.le_refl _) _ hd e rfl
  have hsize := List.sizeOf_lt_of_mem hd
  have := e.block_lt b hb
  simp only [Declarator.mk.sizeOf_spec, Option.some.sizeOf_spec] at hsize
  omega

theorem attributes_block_lt {as : List Attribute} {b : List Stmt}
    (hb : b ∈ attributesArrowBlocks as) :
    stmtsArrowDepth b < attributesArrowDepth as ∧ sizeOf b < sizeOf as := by
  obtain ⟨x, e, ha, hb⟩ := mem_attributesArrowBlocks.mp hb
  have hdepth := attributesArrowDepth_le.mp (Nat.le_refl _) x e ha
  have hsize := List.sizeOf_lt_of_mem ha
  have := e.block_lt b hb
  simp only [Attribute.braced.sizeOf_spec] at hsize
  omega

mutual

/-- An arrow block lies less deep than the statement around it, and is smaller. -/
theorem Stmt.block_lt : ∀ (s : Stmt), ∀ b ∈ s.arrowBlocks,
    stmtsArrowDepth b < s.arrowDepth ∧ sizeOf b < sizeOf s
  | .expression value, b, hb => by
    have := value.block_lt b hb
    simp only [Stmt.arrowDepth, Stmt.expression.sizeOf_spec]
    omega
  | .declaration kind ds, b, hb => by
    have := declarators_block_lt (b := b) hb
    simp only [Stmt.arrowDepth, Stmt.declaration.sizeOf_spec]
    omega
  | .return_ value, b, hb => by
    have := expr?_block_lt (b := b) hb
    simp only [Stmt.arrowDepth, Stmt.return_.sizeOf_spec]
    omega
  | .if_ test consequent alternate, b, hb => by
    have := test.block_lt b hb
    simp only [Stmt.arrowDepth, Stmt.if_.sizeOf_spec]
    omega
  | .while_ test body, b, hb => by
    have := test.block_lt b hb
    simp only [Stmt.arrowDepth, Stmt.while_.sizeOf_spec]
    omega
  | .for_ init test update body, b, hb => by
    simp only [Stmt.arrowBlocks, List.mem_append] at hb
    simp only [Stmt.arrowDepth, Stmt.for_.sizeOf_spec]
    rcases hb with hb | hb | hb
    · have := stmt?_block_lt init b hb
      omega
    · have := expr?_block_lt hb
      omega
    · have := expr?_block_lt hb
      omega
  | .elementStart name attributes span, b, hb => by
    have := attributes_block_lt (b := b) hb
    simp only [Stmt.arrowDepth, Stmt.elementStart.sizeOf_spec]
    omega
  | .element name attributes span, b, hb => by
    have := attributes_block_lt (b := b) hb
    simp only [Stmt.arrowDepth, Stmt.element.sizeOf_spec]
    omega
  | .decorator ⟨name, arguments, span⟩, b, hb => by
    have := exprs_block_lt (fun e (_ : e ∈ arguments) => e.block_lt) (b := b) hb
    simp only [Stmt.arrowDepth, Decorator.arrowDepth, Stmt.decorator.sizeOf_spec,
      Decorator.mk.sizeOf_spec]
    omega
termination_by structural x => x

theorem stmt?_block_lt : ∀ (s : Option Stmt), ∀ b ∈ stmtArrowBlocks? s,
    stmtsArrowDepth b < stmtArrowDepth? s ∧ sizeOf b < sizeOf s
  | some s, b, hb => by
    have := s.block_lt b hb
    simp only [stmtArrowDepth?, Option.some.sizeOf_spec]
    omega
termination_by structural x => x

end

/-! ### Recursion into arrow blocks -/

section

variable {X : Type} {F : (List Stmt → X) → List Stmt → X} {run : Nat → List Stmt → X}

/-- A recursion that is bounded by a depth comes to the same result with any two depths that are
large enough, if each turn goes on in blocks that lie less deep only. -/
theorem run_eq_of_depth_lt (hrun : ∀ n b, run (n + 1) b = F (run n) b)
    (hF : ∀ g g' b, (∀ c, stmtsArrowDepth c < stmtsArrowDepth b → g c = g' c) → F g b = F g' b)
    {m n : Nat} {b : List Stmt} (hm : stmtsArrowDepth b < m) (hn : stmtsArrowDepth b < n) :
    run m b = run n b := by
  induction m generalizing n b with
  | zero => omega
  | succ m ih =>
    cases n with
    | zero => omega
    | succ n =>
      rw [hrun, hrun]
      exact hF _ _ b fun c hc => ih (by omega) (by omega)

/-- With the depth of a block itself, the bound does not show. -/
theorem run_depth_eq (hrun : ∀ n b, run (n + 1) b = F (run n) b)
    (hF : ∀ g g' b, (∀ c, stmtsArrowDepth c < stmtsArrowDepth b → g c = g' c) → F g b = F g' b)
    (b : List Stmt) :
    run (stmtsArrowDepth b + 1) b = F (fun c => run (stmtsArrowDepth c + 1) c) b := by
  rw [hrun]
  exact hF _ _ b fun c hc => run_eq_of_depth_lt hrun hF hc (Nat.lt_succ_self _)

end

end MarkupScript
