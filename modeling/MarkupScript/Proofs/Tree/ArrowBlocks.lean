import MarkupScript.Proofs.Tree.Induction
import MarkupScript.Tree.ArrowBlocks

/-!
# Arrow blocks as a list

The arrow blocks of a statement's own expressions form a list, and `fill` puts other blocks in their
places. Changing the arrow blocks one after the other is the same as going through the list and
filling in the answers, whatever the monad (`Stmt.mapArrowBlocks_eq`). A pass that works on arrow
blocks can therefore be looked at statement by statement, without its expressions.
-/

namespace MarkupScript

/-! ### The blocks -/

mutual

/-- The outermost arrow blocks of an expression, from left to right. -/
def Expr.arrowBlocks : Expr → List (List Stmt)
  | .binary left _ right _ => left.arrowBlocks ++ right.arrowBlocks
  | .unary _ operand _ => operand.arrowBlocks
  | .update _ _ operand _ => operand.arrowBlocks
  | .member object property _ _ _ => object.arrowBlocks ++ property.arrowBlocks
  | .call callee arguments _ => callee.arrowBlocks ++ exprsArrowBlocks arguments
  | .new callee arguments _ => callee.arrowBlocks ++ exprsArrowBlocks arguments
  | .conditional test consequent alternate _ =>
    test.arrowBlocks ++ (consequent.arrowBlocks ++ alternate.arrowBlocks)
  | .object properties _ => propertiesArrowBlocks properties
  | .array items _ => exprsArrowBlocks items
  | .arrow _ body _ => body.arrowBlocks
  | .assignment target _ value _ => target.arrowBlocks ++ value.arrowBlocks
  | _ => []

/-- The arrow blocks of expressions. -/
def exprsArrowBlocks : List Expr → List (List Stmt)
  | [] => []
  | e :: rest => e.arrowBlocks ++ exprsArrowBlocks rest

/-- The arrow blocks of the values of properties. -/
def propertiesArrowBlocks : List Property → List (List Stmt)
  | [] => []
  | ⟨_, value, _⟩ :: rest => value.arrowBlocks ++ propertiesArrowBlocks rest

/-- The arrow blocks of the body of an arrow function. -/
def ArrowBody.arrowBlocks : ArrowBody → List (List Stmt)
  | .expression value => value.arrowBlocks
  | .block body => [body]

end

/-- The arrow blocks of an expression that may be missing. -/
def exprArrowBlocks? : Option Expr → List (List Stmt)
  | none => []
  | some e => e.arrowBlocks

/-- The arrow blocks of the first values of variables. -/
def declaratorsArrowBlocks : List Declarator → List (List Stmt)
  | [] => []
  | ⟨_, init⟩ :: rest => exprArrowBlocks? init ++ declaratorsArrowBlocks rest

/-- The arrow blocks of an attribute. -/
def Attribute.arrowBlocks : Attribute → List (List Stmt)
  | .braced _ value => value.arrowBlocks
  | _ => []

/-- The arrow blocks of attributes. -/
def attributesArrowBlocks : List Attribute → List (List Stmt)
  | [] => []
  | a :: rest => a.arrowBlocks ++ attributesArrowBlocks rest

mutual

/-- The arrow blocks of a statement's own expressions, from left to right. -/
def Stmt.arrowBlocks : Stmt → List (List Stmt)
  | .expression value => value.arrowBlocks
  | .declaration _ ds => declaratorsArrowBlocks ds
  | .return_ value => exprArrowBlocks? value
  | .if_ test _ _ => test.arrowBlocks
  | .while_ test _ => test.arrowBlocks
  | .for_ init test update _ =>
    stmtArrowBlocks? init ++ (exprArrowBlocks? test ++ exprArrowBlocks? update)
  | .elementStart _ attributes _ => attributesArrowBlocks attributes
  | .element _ attributes _ => attributesArrowBlocks attributes
  | .decorator ⟨_, arguments, _⟩ => exprsArrowBlocks arguments
  | _ => []

/-- The arrow blocks of a statement that may be missing. -/
def stmtArrowBlocks? : Option Stmt → List (List Stmt)
  | none => []
  | some s => s.arrowBlocks

end

/-! ### Filling in others -/

mutual

/-- An expression with other arrow blocks, of which there are as many as it has. -/
def Expr.fill : Expr → List (List Stmt) → Expr
  | .binary left op right s, bs =>
    .binary (left.fill (bs.take left.arrowBlocks.length)) op
      (right.fill (bs.drop left.arrowBlocks.length)) s
  | .unary op operand s, bs => .unary op (operand.fill bs) s
  | .update op inFront operand s, bs => .update op inFront (operand.fill bs) s
  | .member object property computed optional s, bs =>
    .member (object.fill (bs.take object.arrowBlocks.length))
      (property.fill (bs.drop object.arrowBlocks.length)) computed optional s
  | .call callee arguments s, bs =>
    .call (callee.fill (bs.take callee.arrowBlocks.length))
      (exprsFill arguments (bs.drop callee.arrowBlocks.length)) s
  | .new callee arguments s, bs =>
    .new (callee.fill (bs.take callee.arrowBlocks.length))
      (exprsFill arguments (bs.drop callee.arrowBlocks.length)) s
  | .conditional test consequent alternate s, bs =>
    let rest := bs.drop test.arrowBlocks.length
    .conditional (test.fill (bs.take test.arrowBlocks.length))
      (consequent.fill (rest.take consequent.arrowBlocks.length))
      (alternate.fill (rest.drop consequent.arrowBlocks.length)) s
  | .object properties s, bs => .object (propertiesFill properties bs) s
  | .array items s, bs => .array (exprsFill items bs) s
  | .arrow params body s, bs => .arrow params (body.fill bs) s
  | .assignment target op value s, bs =>
    .assignment (target.fill (bs.take target.arrowBlocks.length)) op
      (value.fill (bs.drop target.arrowBlocks.length)) s
  | e, _ => e

/-- Expressions with other arrow blocks. -/
def exprsFill : List Expr → List (List Stmt) → List Expr
  | [], _ => []
  | e :: rest, bs =>
    e.fill (bs.take e.arrowBlocks.length) :: exprsFill rest (bs.drop e.arrowBlocks.length)

/-- Properties with other arrow blocks. -/
def propertiesFill : List Property → List (List Stmt) → List Property
  | [], _ => []
  | ⟨key, value, shorthand⟩ :: rest, bs =>
    ⟨key, value.fill (bs.take value.arrowBlocks.length), shorthand⟩ ::
      propertiesFill rest (bs.drop value.arrowBlocks.length)

/-- The body of an arrow function with other arrow blocks. -/
def ArrowBody.fill : ArrowBody → List (List Stmt) → ArrowBody
  | .expression value, bs => .expression (value.fill bs)
  | .block _, bs => .block (bs.head?.getD [])

end

/-- An expression that may be missing, with other arrow blocks. -/
def exprFill? : Option Expr → List (List Stmt) → Option Expr
  | none, _ => none
  | some e, bs => some (e.fill bs)

/-- Declared variables with other arrow blocks. -/
def declaratorsFill : List Declarator → List (List Stmt) → List Declarator
  | [], _ => []
  | ⟨name, init⟩ :: rest, bs =>
    ⟨name, exprFill? init (bs.take (exprArrowBlocks? init).length)⟩ ::
      declaratorsFill rest (bs.drop (exprArrowBlocks? init).length)

/-- An attribute with other arrow blocks. -/
def Attribute.fill : Attribute → List (List Stmt) → Attribute
  | .bare name, _ => .bare name
  | .text name value, _ => .text name value
  | .braced name value, bs => .braced name (value.fill bs)

/-- Attributes with other arrow blocks. -/
def attributesFill : List Attribute → List (List Stmt) → List Attribute
  | [], _ => []
  | a :: rest, bs =>
    a.fill (bs.take a.arrowBlocks.length) :: attributesFill rest (bs.drop a.arrowBlocks.length)

mutual

/-- A statement with other arrow blocks in its own expressions. -/
def Stmt.fill : Stmt → List (List Stmt) → Stmt
  | .expression value, bs => .expression (value.fill bs)
  | .declaration kind ds, bs => .declaration kind (declaratorsFill ds bs)
  | .return_ value, bs => .return_ (exprFill? value bs)
  | .if_ test consequent alternate, bs => .if_ (test.fill bs) consequent alternate
  | .while_ test body, bs => .while_ (test.fill bs) body
  | .for_ init test update body, bs =>
    let rest := bs.drop (stmtArrowBlocks? init).length
    .for_ (stmtFill? init (bs.take (stmtArrowBlocks? init).length))
      (exprFill? test (rest.take (exprArrowBlocks? test).length))
      (exprFill? update (rest.drop (exprArrowBlocks? test).length)) body
  | .elementStart name attributes s, bs => .elementStart name (attributesFill attributes bs) s
  | .element name attributes s, bs => .element name (attributesFill attributes bs) s
  | .decorator ⟨name, arguments, span⟩, bs => .decorator ⟨name, exprsFill arguments bs, span⟩
  | s, _ => s

/-- A statement that may be missing, with other arrow blocks. -/
def stmtFill? : Option Stmt → List (List Stmt) → Option Stmt
  | none, _ => none
  | some s, bs => some (s.fill bs)

end

/-! ### Induction over expressions alone -/

/-- Whether an expression has no parts. -/
def Expr.isAtom : Expr → Bool
  | .number _ _ | .string _ _ | .boolean _ _ | .null _ | .this_ _ | .identifier _ _ => true
  | _ => false

/-- The steps of an induction over expressions that stops at arrow blocks. -/
structure ExprInduction (P : Expr → Prop) : Prop where
  atom : ∀ e, e.isAtom = true → P e
  binary : ∀ left op right s, P left → P right → P (.binary left op right s)
  unary : ∀ op operand s, P operand → P (.unary op operand s)
  update : ∀ op inFront operand s, P operand → P (.update op inFront operand s)
  member : ∀ object property computed optional s, P object → P property →
    P (.member object property computed optional s)
  call : ∀ callee arguments s, P callee → (∀ e ∈ arguments, P e) → P (.call callee arguments s)
  new : ∀ callee arguments s, P callee → (∀ e ∈ arguments, P e) → P (.new callee arguments s)
  conditional : ∀ test consequent alternate s, P test → P consequent → P alternate →
    P (.conditional test consequent alternate s)
  object : ∀ properties s, (∀ p ∈ properties, P p.value) → P (.object properties s)
  array : ∀ items s, (∀ e ∈ items, P e) → P (.array items s)
  arrowExpression : ∀ params value s, P value → P (.arrow params (.expression value) s)
  arrowBlock : ∀ params body s, P (.arrow params (.block body) s)
  assignment : ∀ target op value s, P target → P value → P (.assignment target op value s)

theorem ExprInduction.expr {P : Expr → Prop} (h : ExprInduction P) : ∀ e, P e :=
  have steps : TreeInduction P fun _ => True :=
    { h with
      number := fun _ _ => h.atom _ rfl
      string := fun _ _ => h.atom _ rfl
      boolean := fun _ _ => h.atom _ rfl
      null := fun _ => h.atom _ rfl
      this_ := fun _ => h.atom _ rfl
      identifier := fun _ _ => h.atom _ rfl
      arrowBlock := fun params body s _ => h.arrowBlock params body s
      expression := fun _ _ => trivial
      declaration := fun _ _ _ => trivial
      function := fun _ _ _ _ _ _ => trivial
      return_ := fun _ _ => trivial
      if_ := fun _ _ _ _ _ _ => trivial
      while_ := fun _ _ _ _ => trivial
      for_ := fun _ _ _ _ _ _ _ _ _ _ => trivial
      block := fun _ _ => trivial
      break_ := trivial
      continue_ := trivial
      import_ := fun _ _ _ => trivial
      export_ := fun _ _ => trivial
      empty := trivial
      elementStart := fun _ _ _ _ => trivial
      elementEnd := fun _ _ => trivial
      element := fun _ _ _ _ => trivial
      decorator := fun _ _ => trivial }
  steps.expr

/-! ### Changing the blocks is going through the list -/

section

variable {m : Type → Type} [Monad m] [LawfulMonad m]

/-- What follows a walk through a list may use that there are as many answers as items. -/
theorem mapM_bind_congr {α β γ : Type} {f : α → m β} {xs : List α} {g h : List β → m γ}
    (hgh : ∀ ys, ys.length = xs.length → g ys = h ys) : xs.mapM f >>= g = xs.mapM f >>= h := by
  induction xs generalizing g h with
  | nil => simpa using hgh [] rfl
  | cons x xs ih =>
    simp only [List.mapM_cons, bind_assoc, pure_bind]
    refine bind_congr fun y => ih fun ys hys => ?_
    exact hgh (y :: ys) (by simp [hys])

theorem mapM_append_bind {α β γ : Type} {f : α → m β} (xs ys : List α) (g : List β → List β → m γ) :
    ((xs ++ ys).mapM f >>= fun bs => g (bs.take xs.length) (bs.drop xs.length)) =
      xs.mapM f >>= fun bs => ys.mapM f >>= fun cs => g bs cs := by
  simp only [List.mapM_append, bind_assoc, pure_bind]
  refine mapM_bind_congr fun bs hbs => bind_congr fun cs => ?_
  rw [← hbs, List.take_left, List.drop_left]

theorem mapM_congr {α β : Type} {f g : α → m β} {xs : List α} (h : ∀ x ∈ xs, f x = g x) :
    xs.mapM f = xs.mapM g := by
  induction xs with
  | nil => rfl
  | cons x xs ih =>
    rw [List.forall_mem_cons] at h
    rw [List.mapM_cons, List.mapM_cons, h.1, ih h.2]

variable (f : List Stmt → m (List Stmt))

theorem exprsMapArrowBlocks_eq {es : List Expr}
    (h : ∀ e ∈ es, e.mapArrowBlocks f = e.fill <$> e.arrowBlocks.mapM f) :
    exprsMapArrowBlocks f es = exprsFill es <$> (exprsArrowBlocks es).mapM f := by
  induction es with
  | nil => simp [exprsMapArrowBlocks, exprsArrowBlocks, exprsFill]
  | cons e es ih =>
    rw [List.forall_mem_cons] at h
    simp only [exprsMapArrowBlocks, exprsArrowBlocks, exprsFill, h.1, ih h.2, map_eq_pure_bind,
      bind_assoc, pure_bind]
    exact (mapM_append_bind _ _ fun bs cs => pure (e.fill bs :: exprsFill es cs)).symm

theorem propertiesMapArrowBlocks_eq {ps : List Property}
    (h : ∀ p ∈ ps, p.value.mapArrowBlocks f = p.value.fill <$> p.value.arrowBlocks.mapM f) :
    propertiesMapArrowBlocks f ps = propertiesFill ps <$> (propertiesArrowBlocks ps).mapM f := by
  induction ps with
  | nil => simp [propertiesMapArrowBlocks, propertiesArrowBlocks, propertiesFill]
  | cons p ps ih =>
    obtain ⟨key, value, shorthand⟩ := p
    rw [List.forall_mem_cons] at h
    simp only [propertiesMapArrowBlocks, propertiesArrowBlocks, propertiesFill, h.1, ih h.2,
      map_eq_pure_bind, bind_assoc, pure_bind]
    exact (mapM_append_bind _ _ fun bs cs =>
      (pure (⟨key, value.fill bs, shorthand⟩ :: propertiesFill ps cs) : m _)).symm

/-- Changing the arrow blocks of an expression is going through the list of them. -/
theorem Expr.mapArrowBlocks_eq (e : Expr) :
    e.mapArrowBlocks f = e.fill <$> e.arrowBlocks.mapM f := by
  refine ExprInduction.expr (P := fun e => e.mapArrowBlocks f =
    e.fill <$> e.arrowBlocks.mapM f) ?_ e
  constructor
  case atom =>
    intro e he
    cases e <;> simp_all [isAtom, Expr.mapArrowBlocks, arrowBlocks, fill]
  case binary =>
    intro left op right s hleft hright
    simp only [Expr.mapArrowBlocks, arrowBlocks, fill, hleft, hright, map_eq_pure_bind, bind_assoc,
      pure_bind]
    exact (mapM_append_bind _ _ fun bs cs =>
      pure (Expr.binary (left.fill bs) op (right.fill cs) s)).symm
  case unary =>
    intro op operand s h
    simp only [Expr.mapArrowBlocks, arrowBlocks, fill, h, map_eq_pure_bind, bind_assoc, pure_bind]
  case update =>
    intro op inFront operand s h
    simp only [Expr.mapArrowBlocks, arrowBlocks, fill, h, map_eq_pure_bind, bind_assoc, pure_bind]
  case member =>
    intro object property computed optional s hobject hproperty
    simp only [Expr.mapArrowBlocks, arrowBlocks, fill, hobject, hproperty, map_eq_pure_bind,
      bind_assoc, pure_bind]
    exact (mapM_append_bind _ _ fun bs cs =>
      pure (Expr.member (object.fill bs) (property.fill cs) computed optional s)).symm
  case call =>
    intro callee arguments s hcallee harguments
    simp only [Expr.mapArrowBlocks, arrowBlocks, fill, hcallee, exprsMapArrowBlocks_eq f harguments,
      map_eq_pure_bind, bind_assoc, pure_bind]
    exact (mapM_append_bind _ _ fun bs cs =>
      pure (Expr.call (callee.fill bs) (exprsFill arguments cs) s)).symm
  case new =>
    intro callee arguments s hcallee harguments
    simp only [Expr.mapArrowBlocks, arrowBlocks, fill, hcallee, exprsMapArrowBlocks_eq f harguments,
      map_eq_pure_bind, bind_assoc, pure_bind]
    exact (mapM_append_bind _ _ fun bs cs =>
      pure (Expr.new (callee.fill bs) (exprsFill arguments cs) s)).symm
  case conditional =>
    intro test consequent alternate s htest hconsequent halternate
    simp only [Expr.mapArrowBlocks, arrowBlocks, fill, htest, hconsequent, halternate,
      map_eq_pure_bind, bind_assoc, pure_bind]
    refine Eq.trans ?_ (mapM_append_bind _ _ fun bs cs => pure (Expr.conditional (test.fill bs)
      (consequent.fill (cs.take consequent.arrowBlocks.length))
      (alternate.fill (cs.drop consequent.arrowBlocks.length)) s)).symm
    exact bind_congr fun bs => (mapM_append_bind _ _ fun cs ds =>
      pure (Expr.conditional (test.fill bs) (consequent.fill cs) (alternate.fill ds) s)).symm
  case object =>
    intro properties s h
    simp only [Expr.mapArrowBlocks, arrowBlocks, fill, propertiesMapArrowBlocks_eq f h,
      map_eq_pure_bind, bind_assoc, pure_bind]
  case array =>
    intro items s h
    simp only [Expr.mapArrowBlocks, arrowBlocks, fill, exprsMapArrowBlocks_eq f h, map_eq_pure_bind,
      bind_assoc, pure_bind]
  case arrowExpression =>
    intro params value s h
    simp only [Expr.mapArrowBlocks, arrowBlocks, fill, ArrowBody.mapArrowBlocks,
      ArrowBody.arrowBlocks, ArrowBody.fill, h, map_eq_pure_bind, bind_assoc, pure_bind]
  case arrowBlock =>
    intro params body s
    simp [Expr.mapArrowBlocks, arrowBlocks, fill, ArrowBody.mapArrowBlocks, ArrowBody.arrowBlocks,
      ArrowBody.fill]
  case assignment =>
    intro target op value s htarget hvalue
    simp only [Expr.mapArrowBlocks, arrowBlocks, fill, htarget, hvalue, map_eq_pure_bind,
      bind_assoc, pure_bind]
    exact (mapM_append_bind _ _ fun bs cs =>
      pure (Expr.assignment (target.fill bs) op (value.fill cs) s)).symm

theorem exprMapArrowBlocks?_eq (e : Option Expr) :
    exprMapArrowBlocks? f e = exprFill? e <$> (exprArrowBlocks? e).mapM f := by
  cases e with
  | none => simp [exprMapArrowBlocks?, exprArrowBlocks?, exprFill?]
  | some e =>
    simp only [exprMapArrowBlocks?, exprArrowBlocks?, exprFill?, Expr.mapArrowBlocks_eq,
      map_eq_pure_bind, bind_assoc, pure_bind]

theorem declaratorsMapArrowBlocks_eq (ds : List Declarator) :
    declaratorsMapArrowBlocks f ds =
      declaratorsFill ds <$> (declaratorsArrowBlocks ds).mapM f := by
  induction ds with
  | nil => simp [declaratorsMapArrowBlocks, declaratorsArrowBlocks, declaratorsFill]
  | cons d ds ih =>
    obtain ⟨name, init⟩ := d
    simp only [declaratorsMapArrowBlocks, declaratorsArrowBlocks, declaratorsFill,
      exprMapArrowBlocks?_eq, ih, map_eq_pure_bind, bind_assoc, pure_bind]
    exact (mapM_append_bind _ _ fun bs cs =>
      (pure (⟨name, exprFill? init bs⟩ :: declaratorsFill ds cs) : m _)).symm

theorem attributesMapArrowBlocks_eq (as : List Attribute) :
    attributesMapArrowBlocks f as =
      attributesFill as <$> (attributesArrowBlocks as).mapM f := by
  induction as with
  | nil => simp [attributesMapArrowBlocks, attributesArrowBlocks, attributesFill]
  | cons a as ih =>
    have ha : a.mapArrowBlocks f = a.fill <$> a.arrowBlocks.mapM f := by
      cases a <;>
        simp [Attribute.mapArrowBlocks, Attribute.arrowBlocks, Attribute.fill,
          Expr.mapArrowBlocks_eq, map_eq_pure_bind, -bind_pure_comp]
    simp only [attributesMapArrowBlocks, attributesArrowBlocks, attributesFill, ha, ih,
      map_eq_pure_bind, bind_assoc, pure_bind]
    exact (mapM_append_bind _ _ fun bs cs => pure (a.fill bs :: attributesFill as cs)).symm

mutual

/-- Changing the arrow blocks of a statement is going through the list of them. -/
theorem Stmt.mapArrowBlocks_eq : ∀ s : Stmt,
    s.mapArrowBlocks f = s.fill <$> s.arrowBlocks.mapM f
  | .for_ init test update body => by
    simp only [Stmt.mapArrowBlocks, Stmt.arrowBlocks, Stmt.fill, stmtMapArrowBlocks?_eq init,
      exprMapArrowBlocks?_eq, map_eq_pure_bind, bind_assoc, pure_bind]
    refine Eq.trans ?_ (mapM_append_bind _ _ fun bs cs => pure (Stmt.for_ (stmtFill? init bs)
      (exprFill? test (cs.take (exprArrowBlocks? test).length))
      (exprFill? update (cs.drop (exprArrowBlocks? test).length)) body)).symm
    exact bind_congr fun bs => (mapM_append_bind _ _ fun cs ds =>
      pure (Stmt.for_ (stmtFill? init bs) (exprFill? test cs) (exprFill? update ds) body)).symm
  | .expression value => by
    simp [Stmt.mapArrowBlocks, Stmt.arrowBlocks, Stmt.fill, Expr.mapArrowBlocks_eq]
  | .declaration kind ds => by
    simp [Stmt.mapArrowBlocks, Stmt.arrowBlocks, Stmt.fill, declaratorsMapArrowBlocks_eq]
  | .return_ value => by
    simp [Stmt.mapArrowBlocks, Stmt.arrowBlocks, Stmt.fill, exprMapArrowBlocks?_eq]
  | .if_ test consequent alternate => by
    simp [Stmt.mapArrowBlocks, Stmt.arrowBlocks, Stmt.fill, Expr.mapArrowBlocks_eq]
  | .while_ test body => by
    simp [Stmt.mapArrowBlocks, Stmt.arrowBlocks, Stmt.fill, Expr.mapArrowBlocks_eq]
  | .elementStart name attributes s => by
    simp [Stmt.mapArrowBlocks, Stmt.arrowBlocks, Stmt.fill, attributesMapArrowBlocks_eq]
  | .element name attributes s => by
    simp [Stmt.mapArrowBlocks, Stmt.arrowBlocks, Stmt.fill, attributesMapArrowBlocks_eq]
  | .decorator ⟨name, arguments, span⟩ => by
    have harguments := exprsMapArrowBlocks_eq f fun e (_ : e ∈ arguments) => e.mapArrowBlocks_eq f
    simp [Stmt.mapArrowBlocks, Stmt.arrowBlocks, Stmt.fill, harguments]
  | .function _ _ _ _ | .block _ | .break_ | .continue_ | .import_ _ _ _ | .export_ _ | .empty
  | .elementEnd _ _ => by simp [Stmt.mapArrowBlocks, Stmt.arrowBlocks, Stmt.fill]
termination_by structural x => x

theorem stmtMapArrowBlocks?_eq : ∀ s : Option Stmt,
    stmtMapArrowBlocks? f s = stmtFill? s <$> (stmtArrowBlocks? s).mapM f
  | none => by simp [stmtMapArrowBlocks?, stmtArrowBlocks?, stmtFill?]
  | some s => by
    simp [stmtMapArrowBlocks?, stmtArrowBlocks?, stmtFill?, s.mapArrowBlocks_eq]
termination_by structural x => x

end

end

end MarkupScript
