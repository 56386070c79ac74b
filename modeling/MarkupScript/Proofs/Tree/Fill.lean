import MarkupScript.Proofs.Tree.ArrowBlocks

/-!
# Filling in arrow blocks

The blocks that were filled in are the arrow blocks of the result, filling in others later replaces
them, and filling in the blocks that are there changes nothing.
-/

namespace MarkupScript

/-! ### Filling and reading off -/

theorem length_take_drop {α : Type} {bs xs ys : List α} (h : bs.length = (xs ++ ys).length) :
    (bs.take xs.length).length = xs.length ∧ (bs.drop xs.length).length = ys.length := by
  simp only [List.length_append] at h
  simp [h]

theorem exprsArrowBlocks_fill {es : List Expr} {bs : List (List Stmt)}
    (h : ∀ e ∈ es, ∀ bs, bs.length = e.arrowBlocks.length → (e.fill bs).arrowBlocks = bs)
    (hbs : bs.length = (exprsArrowBlocks es).length) : exprsArrowBlocks (exprsFill es bs) = bs := by
  induction es generalizing bs with
  | nil => simpa [exprsFill, exprsArrowBlocks, eq_comm] using hbs
  | cons e es ih =>
    rw [List.forall_mem_cons] at h
    obtain ⟨htake, hdrop⟩ := length_take_drop hbs
    rw [exprsFill, exprsArrowBlocks, h.1 _ htake, ih h.2 hdrop, List.take_append_drop]

theorem propertiesArrowBlocks_fill {ps : List Property} {bs : List (List Stmt)}
    (h : ∀ p ∈ ps, ∀ bs, bs.length = p.value.arrowBlocks.length →
      (p.value.fill bs).arrowBlocks = bs)
    (hbs : bs.length = (propertiesArrowBlocks ps).length) :
    propertiesArrowBlocks (propertiesFill ps bs) = bs := by
  induction ps generalizing bs with
  | nil => simpa [propertiesFill, propertiesArrowBlocks, eq_comm] using hbs
  | cons p ps ih =>
    obtain ⟨key, value, shorthand⟩ := p
    rw [List.forall_mem_cons] at h
    obtain ⟨htake, hdrop⟩ := length_take_drop hbs
    rw [propertiesFill, propertiesArrowBlocks, h.1 _ htake, ih h.2 hdrop, List.take_append_drop]

/-- The blocks that were filled in are the blocks. -/
theorem Expr.arrowBlocks_fill (e : Expr) : ∀ bs : List (List Stmt),
    bs.length = e.arrowBlocks.length → (e.fill bs).arrowBlocks = bs := by
  refine ExprInduction.expr (P := fun e => ∀ bs : List (List Stmt),
    bs.length = e.arrowBlocks.length → (e.fill bs).arrowBlocks = bs) ?_ e
  constructor
  case atom =>
    intro e he bs hbs
    cases e <;> simp_all [isAtom, arrowBlocks, fill]
  case binary =>
    intro left op right s hleft hright bs hbs
    obtain ⟨htake, hdrop⟩ := length_take_drop hbs
    rw [fill, arrowBlocks, hleft _ htake, hright _ hdrop, List.take_append_drop]
  case unary => exact fun _ _ _ h bs hbs => h bs hbs
  case update => exact fun _ _ _ _ h bs hbs => h bs hbs
  case member =>
    intro object property computed optional s hobject hproperty bs hbs
    obtain ⟨htake, hdrop⟩ := length_take_drop hbs
    rw [fill, arrowBlocks, hobject _ htake, hproperty _ hdrop, List.take_append_drop]
  case call =>
    intro callee arguments s hcallee harguments bs hbs
    obtain ⟨htake, hdrop⟩ := length_take_drop hbs
    rw [fill, arrowBlocks, hcallee _ htake, exprsArrowBlocks_fill harguments hdrop,
      List.take_append_drop]
  case new =>
    intro callee arguments s hcallee harguments bs hbs
    obtain ⟨htake, hdrop⟩ := length_take_drop hbs
    rw [fill, arrowBlocks, hcallee _ htake, exprsArrowBlocks_fill harguments hdrop,
      List.take_append_drop]
  case conditional =>
    intro test consequent alternate s htest hconsequent halternate bs hbs
    obtain ⟨htake, hrest⟩ := length_take_drop hbs
    obtain ⟨htake', hdrop⟩ := length_take_drop hrest
    rw [fill, arrowBlocks, htest _ htake, hconsequent _ htake', halternate _ hdrop,
      List.take_append_drop, List.take_append_drop]
  case object => exact fun _ _ h bs hbs => propertiesArrowBlocks_fill h hbs
  case array => exact fun _ _ h bs hbs => exprsArrowBlocks_fill h hbs
  case arrowExpression => exact fun _ _ _ h bs hbs => h bs hbs
  case arrowBlock =>
    intro params body s bs hbs
    obtain ⟨b, rfl⟩ := List.length_eq_one_iff.mp hbs
    rfl
  case assignment =>
    intro target op value s htarget hvalue bs hbs
    obtain ⟨htake, hdrop⟩ := length_take_drop hbs
    rw [fill, arrowBlocks, htarget _ htake, hvalue _ hdrop, List.take_append_drop]

theorem exprArrowBlocks?_fill {e : Option Expr} {bs : List (List Stmt)}
    (hbs : bs.length = (exprArrowBlocks? e).length) : exprArrowBlocks? (exprFill? e bs) = bs := by
  cases e with
  | none => simpa [exprFill?, exprArrowBlocks?, eq_comm] using hbs
  | some e => exact e.arrowBlocks_fill bs hbs

theorem declaratorsArrowBlocks_fill {ds : List Declarator} {bs : List (List Stmt)}
    (hbs : bs.length = (declaratorsArrowBlocks ds).length) :
    declaratorsArrowBlocks (declaratorsFill ds bs) = bs := by
  induction ds generalizing bs with
  | nil => simpa [declaratorsFill, declaratorsArrowBlocks, eq_comm] using hbs
  | cons d ds ih =>
    obtain ⟨name, init⟩ := d
    obtain ⟨htake, hdrop⟩ := length_take_drop hbs
    rw [declaratorsFill, declaratorsArrowBlocks, exprArrowBlocks?_fill htake, ih hdrop,
      List.take_append_drop]

theorem Attribute.arrowBlocks_fill (a : Attribute) {bs : List (List Stmt)}
    (hbs : bs.length = a.arrowBlocks.length) : (a.fill bs).arrowBlocks = bs := by
  cases a with
  | braced name value => exact value.arrowBlocks_fill bs hbs
  | _ => simpa [Attribute.fill, Attribute.arrowBlocks, eq_comm] using hbs

theorem attributesArrowBlocks_fill {as : List Attribute} {bs : List (List Stmt)}
    (hbs : bs.length = (attributesArrowBlocks as).length) :
    attributesArrowBlocks (attributesFill as bs) = bs := by
  induction as generalizing bs with
  | nil => simpa [attributesFill, attributesArrowBlocks, eq_comm] using hbs
  | cons a as ih =>
    obtain ⟨htake, hdrop⟩ := length_take_drop hbs
    rw [attributesFill, attributesArrowBlocks, a.arrowBlocks_fill htake, ih hdrop,
      List.take_append_drop]

mutual

theorem Stmt.arrowBlocks_fill : ∀ (s : Stmt) (bs : List (List Stmt)),
    bs.length = s.arrowBlocks.length → (s.fill bs).arrowBlocks = bs
  | .expression value, bs, hbs => value.arrowBlocks_fill bs hbs
  | .declaration _ _, _, hbs => declaratorsArrowBlocks_fill hbs
  | .return_ _, _, hbs => exprArrowBlocks?_fill hbs
  | .if_ test _ _, bs, hbs => test.arrowBlocks_fill bs hbs
  | .while_ test _, bs, hbs => test.arrowBlocks_fill bs hbs
  | .for_ init test update body, bs, hbs => by
    obtain ⟨htake, hrest⟩ := length_take_drop hbs
    obtain ⟨htake', hdrop⟩ := length_take_drop hrest
    rw [Stmt.fill, Stmt.arrowBlocks, stmtArrowBlocks?_fill init _ htake, exprArrowBlocks?_fill
      htake', exprArrowBlocks?_fill hdrop, List.take_append_drop, List.take_append_drop]
  | .elementStart _ _ _, _, hbs => attributesArrowBlocks_fill hbs
  | .element _ _ _, _, hbs => attributesArrowBlocks_fill hbs
  | .decorator ⟨_, _, _⟩, _, hbs => exprsArrowBlocks_fill (fun e _ => e.arrowBlocks_fill) hbs
  | .function _ _ _ _, bs, hbs | .block _, bs, hbs | .break_, bs, hbs | .continue_, bs, hbs
  | .import_ _ _ _, bs, hbs | .export_ _, bs, hbs | .empty, bs, hbs | .elementEnd _ _, bs, hbs => by
    simpa [Stmt.fill, Stmt.arrowBlocks, eq_comm] using hbs
termination_by structural x => x

theorem stmtArrowBlocks?_fill : ∀ (s : Option Stmt) (bs : List (List Stmt)),
    bs.length = (stmtArrowBlocks? s).length → stmtArrowBlocks? (stmtFill? s bs) = bs
  | none, _, hbs => by simpa [stmtFill?, stmtArrowBlocks?, eq_comm] using hbs
  | some s, bs, hbs => s.arrowBlocks_fill bs hbs
termination_by structural x => x

end

/-! ### Filling twice -/

theorem exprsFill_fill {es : List Expr} {bs : List (List Stmt)} (cs : List (List Stmt))
    (h : ∀ e ∈ es, ∀ bs cs, bs.length = e.arrowBlocks.length → (e.fill bs).fill cs = e.fill cs)
    (hbs : bs.length = (exprsArrowBlocks es).length) :
    exprsFill (exprsFill es bs) cs = exprsFill es cs := by
  induction es generalizing bs cs with
  | nil => rfl
  | cons e es ih =>
    rw [List.forall_mem_cons] at h
    obtain ⟨htake, hdrop⟩ := length_take_drop hbs
    simp only [exprsFill, e.arrowBlocks_fill _ htake, htake, h.1 _ _ htake, ih _ h.2 hdrop]

theorem propertiesFill_fill {ps : List Property} {bs : List (List Stmt)} (cs : List (List Stmt))
    (h : ∀ p ∈ ps, ∀ bs cs, bs.length = p.value.arrowBlocks.length →
      (p.value.fill bs).fill cs = p.value.fill cs)
    (hbs : bs.length = (propertiesArrowBlocks ps).length) :
    propertiesFill (propertiesFill ps bs) cs = propertiesFill ps cs := by
  induction ps generalizing bs cs with
  | nil => rfl
  | cons p ps ih =>
    obtain ⟨key, value, shorthand⟩ := p
    rw [List.forall_mem_cons] at h
    obtain ⟨htake, hdrop⟩ := length_take_drop hbs
    simp only [propertiesFill, value.arrowBlocks_fill _ htake, htake, h.1 _ _ htake, ih _ h.2 hdrop]

/-- Blocks that were filled in are replaced by those filled in later. -/
theorem Expr.fill_fill (e : Expr) : ∀ bs cs : List (List Stmt),
    bs.length = e.arrowBlocks.length → (e.fill bs).fill cs = e.fill cs := by
  refine ExprInduction.expr (P := fun e => ∀ bs cs : List (List Stmt),
    bs.length = e.arrowBlocks.length → (e.fill bs).fill cs = e.fill cs) ?_ e
  constructor
  case atom =>
    intro e he bs cs hbs
    cases e <;> first | rfl | cases he
  case binary =>
    intro left op right s hleft hright bs cs hbs
    obtain ⟨htake, hdrop⟩ := length_take_drop hbs
    simp only [fill, left.arrowBlocks_fill _ htake, htake, hleft _ _ htake, hright _ _ hdrop]
  case unary =>
    intro op operand s h bs cs hbs
    simp only [fill, h bs cs hbs]
  case update =>
    intro op inFront operand s h bs cs hbs
    simp only [fill, h bs cs hbs]
  case member =>
    intro object property computed optional s hobject hproperty bs cs hbs
    obtain ⟨htake, hdrop⟩ := length_take_drop hbs
    simp only [fill, object.arrowBlocks_fill _ htake, htake, hobject _ _ htake, hproperty _ _ hdrop]
  case call =>
    intro callee arguments s hcallee harguments bs cs hbs
    obtain ⟨htake, hdrop⟩ := length_take_drop hbs
    simp only [fill, callee.arrowBlocks_fill _ htake, htake, hcallee _ _ htake, exprsFill_fill _
      harguments hdrop]
  case new =>
    intro callee arguments s hcallee harguments bs cs hbs
    obtain ⟨htake, hdrop⟩ := length_take_drop hbs
    simp only [fill, callee.arrowBlocks_fill _ htake, htake, hcallee _ _ htake, exprsFill_fill _
      harguments hdrop]
  case conditional =>
    intro test consequent alternate s htest hconsequent halternate bs cs hbs
    obtain ⟨htake, hrest⟩ := length_take_drop hbs
    obtain ⟨htake', hdrop⟩ := length_take_drop hrest
    simp only [fill, test.arrowBlocks_fill _ htake, htake, consequent.arrowBlocks_fill _ htake',
      htake', htest _ _ htake, hconsequent _ _ htake', halternate _ _ hdrop]
  case object =>
    intro properties s h bs cs hbs
    simp only [fill, propertiesFill_fill cs h hbs]
  case array =>
    intro items s h bs cs hbs
    simp only [fill, exprsFill_fill cs h hbs]
  case arrowExpression =>
    intro params value s h bs cs hbs
    simp only [fill, ArrowBody.fill, h bs cs hbs]
  case arrowBlock =>
    intro params body s bs cs hbs
    rfl
  case assignment =>
    intro target op value s htarget hvalue bs cs hbs
    obtain ⟨htake, hdrop⟩ := length_take_drop hbs
    simp only [fill, target.arrowBlocks_fill _ htake, htake, htarget _ _ htake, hvalue _ _ hdrop]

theorem exprFill?_fill {e : Option Expr} {bs : List (List Stmt)} (cs : List (List Stmt))
    (hbs : bs.length = (exprArrowBlocks? e).length) :
    exprFill? (exprFill? e bs) cs = exprFill? e cs := by
  cases e with
  | none => rfl
  | some e => simp only [exprFill?, e.fill_fill bs cs hbs]

theorem declaratorsFill_fill {ds : List Declarator} {bs : List (List Stmt)} (cs : List (List Stmt))
    (hbs : bs.length = (declaratorsArrowBlocks ds).length) :
    declaratorsFill (declaratorsFill ds bs) cs = declaratorsFill ds cs := by
  induction ds generalizing bs cs with
  | nil => rfl
  | cons d ds ih =>
    obtain ⟨name, init⟩ := d
    obtain ⟨htake, hdrop⟩ := length_take_drop hbs
    simp only [declaratorsFill, exprArrowBlocks?_fill htake, htake, exprFill?_fill _ htake, ih _
      hdrop]

theorem Attribute.fill_fill (a : Attribute) {bs : List (List Stmt)} (cs : List (List Stmt))
    (hbs : bs.length = a.arrowBlocks.length) : (a.fill bs).fill cs = a.fill cs := by
  cases a with
  | braced name value => simp only [fill, value.fill_fill bs cs hbs]
  | _ => rfl

theorem attributesFill_fill {as : List Attribute} {bs : List (List Stmt)} (cs : List (List Stmt))
    (hbs : bs.length = (attributesArrowBlocks as).length) :
    attributesFill (attributesFill as bs) cs = attributesFill as cs := by
  induction as generalizing bs cs with
  | nil => rfl
  | cons a as ih =>
    obtain ⟨htake, hdrop⟩ := length_take_drop hbs
    simp only [attributesFill, a.arrowBlocks_fill htake, htake, a.fill_fill _ htake, ih _ hdrop]

mutual

theorem Stmt.fill_fill : ∀ (s : Stmt) (bs cs : List (List Stmt)),
    bs.length = s.arrowBlocks.length → (s.fill bs).fill cs = s.fill cs
  | .expression value, bs, cs, hbs => by simp only [Stmt.fill, value.fill_fill bs cs hbs]
  | .declaration _ _, bs, cs, hbs => by simp only [Stmt.fill, declaratorsFill_fill cs hbs]
  | .return_ _, bs, cs, hbs => by simp only [Stmt.fill, exprFill?_fill cs hbs]
  | .if_ test _ _, bs, cs, hbs => by simp only [Stmt.fill, test.fill_fill bs cs hbs]
  | .while_ test _, bs, cs, hbs => by simp only [Stmt.fill, test.fill_fill bs cs hbs]
  | .for_ init test update body, bs, cs, hbs => by
    obtain ⟨htake, hrest⟩ := length_take_drop hbs
    obtain ⟨htake', hdrop⟩ := length_take_drop hrest
    simp only [Stmt.fill, stmtArrowBlocks?_fill init _ htake, htake, exprArrowBlocks?_fill htake',
      htake', stmtFill?_fill init _ _ htake, exprFill?_fill _ htake', exprFill?_fill _ hdrop]
  | .elementStart _ _ _, bs, cs, hbs => by simp only [Stmt.fill, attributesFill_fill cs hbs]
  | .element _ _ _, bs, cs, hbs => by simp only [Stmt.fill, attributesFill_fill cs hbs]
  | .decorator ⟨_, _, _⟩, bs, cs, hbs => by
    simp only [Stmt.fill, exprsFill_fill cs (fun e _ => e.fill_fill) hbs]
  | .function _ _ _ _, _, _, _ | .block _, _, _, _ | .break_, _, _, _ | .continue_, _, _, _
  | .import_ _ _ _, _, _, _ | .export_ _, _, _, _ | .empty, _, _, _ | .elementEnd _ _, _, _, _ =>
    rfl
termination_by structural x => x

theorem stmtFill?_fill : ∀ (s : Option Stmt) (bs cs : List (List Stmt)),
    bs.length = (stmtArrowBlocks? s).length → stmtFill? (stmtFill? s bs) cs = stmtFill? s cs
  | none, _, _, _ => rfl
  | some s, bs, cs, hbs => by simp only [stmtFill?, s.fill_fill bs cs hbs]
termination_by structural x => x

end

/-! ### Filling in the own blocks -/

theorem exprsFill_self {es : List Expr} (h : ∀ e ∈ es, e.fill e.arrowBlocks = e) :
    exprsFill es (exprsArrowBlocks es) = es := by
  induction es with
  | nil => rfl
  | cons e es ih =>
    rw [List.forall_mem_cons] at h
    rw [exprsFill, exprsArrowBlocks, List.take_left, List.drop_left, h.1, ih h.2]

theorem propertiesFill_self {ps : List Property}
    (h : ∀ p ∈ ps, p.value.fill p.value.arrowBlocks = p.value) :
    propertiesFill ps (propertiesArrowBlocks ps) = ps := by
  induction ps with
  | nil => rfl
  | cons p ps ih =>
    obtain ⟨key, value, shorthand⟩ := p
    rw [List.forall_mem_cons] at h
    rw [propertiesFill, propertiesArrowBlocks, List.take_left, List.drop_left, h.1, ih h.2]

/-- An expression with its own blocks filled in is the same. -/
theorem Expr.fill_self (e : Expr) : e.fill e.arrowBlocks = e := by
  refine ExprInduction.expr (P := fun e => e.fill e.arrowBlocks = e) ?_ e
  constructor
  case atom =>
    intro e he
    cases e <;> first | rfl | cases he
  case binary =>
    intro left op right s hleft hright
    rw [fill, arrowBlocks, List.take_left, List.drop_left, hleft, hright]
  case unary =>
    intro op operand s h
    rw [fill, arrowBlocks, h]
  case update =>
    intro op inFront operand s h
    rw [fill, arrowBlocks, h]
  case member =>
    intro object property computed optional s hobject hproperty
    rw [fill, arrowBlocks, List.take_left, List.drop_left, hobject, hproperty]
  case call =>
    intro callee arguments s hcallee harguments
    rw [fill, arrowBlocks, List.take_left, List.drop_left, hcallee, exprsFill_self harguments]
  case new =>
    intro callee arguments s hcallee harguments
    rw [fill, arrowBlocks, List.take_left, List.drop_left, hcallee, exprsFill_self harguments]
  case conditional =>
    intro test consequent alternate s htest hconsequent halternate
    simp only [fill, arrowBlocks, List.take_left, List.drop_left, htest, hconsequent, halternate]
  case object =>
    intro properties s h
    rw [fill, arrowBlocks, propertiesFill_self h]
  case array =>
    intro items s h
    rw [fill, arrowBlocks, exprsFill_self h]
  case arrowExpression =>
    intro params value s h
    rw [fill, arrowBlocks, ArrowBody.fill, ArrowBody.arrowBlocks, h]
  case arrowBlock =>
    intro params body s
    rfl
  case assignment =>
    intro target op value s htarget hvalue
    rw [fill, arrowBlocks, List.take_left, List.drop_left, htarget, hvalue]

theorem exprFill?_self (e : Option Expr) : exprFill? e (exprArrowBlocks? e) = e := by
  cases e with
  | none => rfl
  | some e => rw [exprFill?, exprArrowBlocks?, e.fill_self]

theorem declaratorsFill_self (ds : List Declarator) :
    declaratorsFill ds (declaratorsArrowBlocks ds) = ds := by
  induction ds with
  | nil => rfl
  | cons d ds ih =>
    obtain ⟨name, init⟩ := d
    rw [declaratorsFill, declaratorsArrowBlocks, List.take_left, List.drop_left, exprFill?_self, ih]

theorem Attribute.fill_self (a : Attribute) : a.fill a.arrowBlocks = a := by
  cases a with
  | braced name value => rw [fill, arrowBlocks, value.fill_self]
  | _ => rfl

theorem attributesFill_self (as : List Attribute) :
    attributesFill as (attributesArrowBlocks as) = as := by
  induction as with
  | nil => rfl
  | cons a as ih =>
    rw [attributesFill, attributesArrowBlocks, List.take_left, List.drop_left, a.fill_self, ih]

mutual

/-- A statement with its own blocks filled in is the same. -/
theorem Stmt.fill_self : ∀ s : Stmt, s.fill s.arrowBlocks = s
  | .expression value => by rw [Stmt.fill, Stmt.arrowBlocks, value.fill_self]
  | .declaration _ ds => by rw [Stmt.fill, Stmt.arrowBlocks, declaratorsFill_self ds]
  | .return_ value => by rw [Stmt.fill, Stmt.arrowBlocks, exprFill?_self value]
  | .if_ test _ _ => by rw [Stmt.fill, Stmt.arrowBlocks, test.fill_self]
  | .while_ test _ => by rw [Stmt.fill, Stmt.arrowBlocks, test.fill_self]
  | .for_ init test update body => by
    simp only [Stmt.fill, Stmt.arrowBlocks, List.take_left, List.drop_left, stmtFill?_self init,
      exprFill?_self]
  | .elementStart _ as _ => by rw [Stmt.fill, Stmt.arrowBlocks, attributesFill_self as]
  | .element _ as _ => by rw [Stmt.fill, Stmt.arrowBlocks, attributesFill_self as]
  | .decorator ⟨_, arguments, _⟩ => by
    rw [Stmt.fill, Stmt.arrowBlocks, exprsFill_self fun e (_ : e ∈ arguments) => e.fill_self]
  | .function _ _ _ _ | .block _ | .break_ | .continue_ | .import_ _ _ _ | .export_ _ | .empty
  | .elementEnd _ _ => rfl
termination_by structural x => x

theorem stmtFill?_self : ∀ s : Option Stmt, stmtFill? s (stmtArrowBlocks? s) = s
  | none => rfl
  | some s => by rw [stmtFill?, stmtArrowBlocks?, s.fill_self]
termination_by structural x => x

end

end MarkupScript
