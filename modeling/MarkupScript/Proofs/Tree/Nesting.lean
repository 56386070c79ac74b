import MarkupScript.Proofs.Tree.Every

/-!
# How the parts of a tree lie in its source

Expressions, tags and decorators have spans, other statements have none. A node is placed well if
its span is that of some characters of the source, starts with a token whose line and column it has,
and holds the spans of its parts one behind the other.

The parts of most nodes are expressions. Those of an arrow function with a block are the outermost
expressions, tags and decorators of the block, however deep they lie in statements without spans.
-/

namespace MarkupScript

/-! ### Spans -/

/-- Spans lie one behind the other between two offsets. -/
structure InRow (lo : Nat) (spans : List Span) (hi : Nat) : Prop where
  lt : lo < hi
  within : ∀ s ∈ spans, lo ≤ s.start ∧ s.stop ≤ hi
  ordered : spans.Pairwise fun s t => s.stop ≤ t.start

/-- A node with a span and with parts that have spans is placed well in a source with some tokens
and of some length. -/
structure Span.IsPlaced (tokens : List Token) (length : Nat) (s : Span) (parts : List Span) :
    Prop where
  row : InRow s.start parts s.stop
  inside : s.stop ≤ length
  starts : ∃ t ∈ tokens, t.span.start = s.start
  position : ∀ t ∈ tokens, t.span.start = s.start →
    t.span.line = s.line ∧ t.span.column = s.column

instance (lo : Nat) (spans : List Span) (hi : Nat) : Decidable (InRow lo spans hi) :=
  decidable_of_iff (lo < hi ∧ (∀ s ∈ spans, lo ≤ s.start ∧ s.stop ≤ hi) ∧
      spans.Pairwise fun s t => s.stop ≤ t.start)
    ⟨fun h => ⟨h.1, h.2.1, h.2.2⟩, fun h => ⟨h.lt, h.within, h.ordered⟩⟩

instance (tokens : List Token) (length : Nat) (s : Span) (parts : List Span) :
    Decidable (s.IsPlaced tokens length parts) :=
  decidable_of_iff (InRow s.start parts s.stop ∧ s.stop ≤ length ∧
      (∃ t ∈ tokens, t.span.start = s.start) ∧
      ∀ t ∈ tokens, t.span.start = s.start → t.span.line = s.line ∧ t.span.column = s.column)
    ⟨fun h => ⟨h.1, h.2.1, h.2.2.1, h.2.2.2⟩, fun h => ⟨h.row, h.inside, h.starts, h.position⟩⟩

namespace InRow

variable {lo mid mid' hi : Nat} {spans spans' : List Span}

theorem nil (h : lo < hi) : InRow lo [] hi := ⟨h, by simp, .nil⟩

theorem singleton {s : Span} (h : s.start < s.stop) : InRow s.start [s] s.stop :=
  ⟨h, by simp, List.pairwise_singleton _ _⟩

/-- What lies further on comes behind. -/
theorem append (h : InRow lo spans mid) (hmid : mid ≤ mid') (h' : InRow mid' spans' hi) :
    InRow lo (spans ++ spans') hi := by
  have hlt := h.lt
  have hlt' := h'.lt
  refine ⟨by omega, fun s hs => ?_, List.pairwise_append.mpr ⟨h.ordered, h'.ordered, ?_⟩⟩
  · rcases List.mem_append.mp hs with hs | hs
    · have := h.within s hs
      omega
    · have := h'.within s hs
      omega
  · intro s hs t ht
    have := h.within s hs
    have := h'.within t ht
    omega

theorem sublist (h : InRow lo spans hi) (hsub : spans'.Sublist spans) : InRow lo spans' hi :=
  ⟨h.lt, fun s hs => h.within s (hsub.subset hs), h.ordered.sublist hsub⟩

/-- What lies in a part lies in the whole. -/
theorem nest {s : Span} (h : InRow lo [s] hi) (h' : InRow s.start spans s.stop) :
    InRow lo spans hi := by
  have hs := h.within s (by simp)
  refine ⟨h.lt, fun t ht => ?_, h'.ordered⟩
  have := h'.within t ht
  omega

end InRow

/-! ### Parts -/

/-- The expressions directly in an expression, from left to right. -/
def Expr.children : Expr → List Expr
  | .binary left _ right _ => [left, right]
  | .unary _ operand _ => [operand]
  | .update _ _ operand _ => [operand]
  | .member base property _ _ _ => [base, property]
  | .call callee arguments _ => callee :: arguments
  | .new callee arguments _ => callee :: arguments
  | .conditional test consequent alternate _ => [test, consequent, alternate]
  | .object properties _ => properties.map (·.value)
  | .array items _ => items
  | .arrow _ (.expression value) _ => [value]
  | .assignment target _ value _ => [target, value]
  | _ => []

/-- The statements directly in an expression. -/
def Expr.block : Expr → List Stmt
  | .arrow _ (.block body) _ => body
  | _ => []

/-- The expression that is the value of an attribute. -/
def Attribute.value? : Attribute → Option Expr
  | .braced _ value => some value
  | _ => none

/-- The expressions directly in a statement, from left to right. -/
def Stmt.children : Stmt → List Expr
  | .expression value => [value]
  | .declaration _ ds => ds.filterMap (·.init)
  | .function _ _ _ d => d.toList.flatMap (·.arguments)
  | .return_ value => value.toList
  | .if_ test _ _ => [test]
  | .while_ test _ => [test]
  | .for_ _ test update _ => test.toList ++ update.toList
  | .elementStart _ attributes _ => attributes.filterMap Attribute.value?
  | .element _ attributes _ => attributes.filterMap Attribute.value?
  | .decorator d => d.arguments
  | _ => []

/-- The statements directly in a statement, from left to right. -/
def Stmt.inner : Stmt → List Stmt
  | .function _ _ body _ => body
  | .if_ _ consequent alternate => consequent :: alternate.toList
  | .while_ _ body => [body]
  | .for_ init _ _ body => init.toList ++ [body]
  | .block body => body
  | .export_ declared => [declared]
  | _ => []

/-- The tag or decorator that a statement has a span for, with the expressions directly in it. -/
def Stmt.markup : Stmt → List (Span × List Expr)
  | .elementStart _ attributes s => [(s, attributes.filterMap Attribute.value?)]
  | .elementEnd _ s => [(s, [])]
  | .element _ attributes s => [(s, attributes.filterMap Attribute.value?)]
  | .decorator d => [(d.span, d.arguments)]
  | .function _ _ _ d => d.toList.map fun d => (d.span, d.arguments)
  | _ => []

mutual

/-- The spans of the outermost expressions, tags and decorators of a statement, from left to
right. -/
def Stmt.outermost : Stmt → List Span
  | .expression value => [value.span]
  | .declaration _ ds => (ds.filterMap (·.init)).map Expr.span
  | .function _ _ body d => d.toList.map (·.span) ++ outermostAll body
  | .return_ value => value.toList.map Expr.span
  | .if_ test consequent alternate => [test.span] ++ consequent.outermost ++ outermost? alternate
  | .while_ test body => [test.span] ++ body.outermost
  | .for_ init test update body =>
    outermost? init ++ test.toList.map Expr.span ++ update.toList.map Expr.span ++ body.outermost
  | .block body => outermostAll body
  | .export_ declared => declared.outermost
  | .elementStart _ _ s => [s]
  | .elementEnd _ s => [s]
  | .element _ _ s => [s]
  | .decorator d => [d.span]
  | _ => []

/-- The spans of the outermost nodes of statements. -/
def outermostAll : List Stmt → List Span
  | [] => []
  | s :: rest => s.outermost ++ outermostAll rest

/-- The spans of the outermost nodes of a statement, if there is one. -/
def outermost? : Option Stmt → List Span
  | none => []
  | some s => s.outermost

end

theorem outermostAll_eq (ss : List Stmt) : outermostAll ss = ss.flatMap Stmt.outermost := by
  induction ss with
  | nil => rfl
  | cons s ss ih => exact congrArg (s.outermost ++ ·) ih

/-- The spans of the parts of an expression. -/
def Expr.parts : Expr → List Span
  | .arrow _ (.block body) _ => outermostAll body
  | e => e.children.map Expr.span

/-- An expression is placed well. -/
def Expr.IsPlaced (tokens : List Token) (length : Nat) (e : Expr) : Prop :=
  e.span.IsPlaced tokens length e.parts

/-- What has a span in a statement is placed well, and comes from left to right. -/
structure Stmt.IsPlaced (tokens : List Token) (length : Nat) (s : Stmt) : Prop where
  markup : ∀ node ∈ s.markup, node.1.IsPlaced tokens length (node.2.map Expr.span)
  ordered : s.outermost.Pairwise fun s t => s.stop ≤ t.start

instance (tokens : List Token) (length : Nat) (e : Expr) : Decidable (e.IsPlaced tokens length) :=
  inferInstanceAs (Decidable (e.span.IsPlaced tokens length e.parts))

instance (tokens : List Token) (length : Nat) (s : Stmt) : Decidable (s.IsPlaced tokens length) :=
  decidable_of_iff ((∀ node ∈ s.markup, node.1.IsPlaced tokens length (node.2.map Expr.span)) ∧
      s.outermost.Pairwise fun s t => s.stop ≤ t.start)
    ⟨fun h => ⟨h.1, h.2⟩, fun h => ⟨h.markup, h.ordered⟩⟩

/-! ### The whole and its parts -/

section

variable {onExpr : Expr → Bool} {onStmt : Stmt → Bool}

theorem Expr.every_iff {e : Expr} : e.every onExpr onStmt = true ↔ onExpr e = true ∧
    (∀ c ∈ e.children, c.every onExpr onStmt = true) ∧
    ∀ s ∈ e.block, s.every onExpr onStmt = true := by
  cases e with
  | arrow params body span =>
    cases body <;> simp [every, ArrowBody.every, children, block, everyStmt_iff]
  | _ => simp [every, children, block, everyExpr_iff, everyProperty_iff, and_assoc]

theorem everyDeclarator_iff_children {ds : List Declarator} :
    everyDeclarator onExpr onStmt ds = true ↔
      ∀ e ∈ ds.filterMap (·.init), e.every onExpr onStmt = true := by
  simp only [everyDeclarator_iff, List.mem_filterMap]
  constructor
  · rintro h e ⟨d, hd, he⟩
    exact h d hd e he
  · exact fun h d hd e he => h e ⟨d, hd, he⟩

theorem everyAttribute_iff_children {as : List Attribute} :
    everyAttribute onExpr onStmt as = true ↔
      ∀ e ∈ as.filterMap Attribute.value?, e.every onExpr onStmt = true := by
  simp only [everyAttribute_iff, List.mem_filterMap]
  constructor
  · rintro h e ⟨a, ha, hvalue⟩
    cases a <;> cases hvalue
    exact h _ e ha
  · exact fun h x e hx => h e ⟨_, hx, rfl⟩

theorem Stmt.every_iff {s : Stmt} : s.every onExpr onStmt = true ↔ onStmt s = true ∧
    (∀ e ∈ s.children, e.every onExpr onStmt = true) ∧
    ∀ t ∈ s.inner, t.every onExpr onStmt = true := by
  cases s with
  | declaration _ ds => simp [every, children, inner, everyDeclarator_iff_children]
  | function _ _ body d =>
    cases d <;> simp [every, children, inner, everyStmt_iff, everyDecorator?_iff, and_comm,
      and_left_comm]
  | for_ init test update body =>
    cases init <;> cases test <;> cases update <;>
      simp [every, children, inner, everyExpr?, everyStmt?, and_assoc, and_left_comm]
  | elementStart _ attributes _ => simp [every, children, inner, everyAttribute_iff_children]
  | element _ attributes _ => simp [every, children, inner, everyAttribute_iff_children]
  | decorator d =>
    obtain ⟨name, arguments, span⟩ := d
    simp [every, children, inner, Decorator.every, everyExpr_iff]
  | _ => simp [every, children, inner, everyExpr?_iff, everyStmt_iff, everyStmt?_iff, and_assoc]

end

end MarkupScript
