import MarkupScript.Proofs.Print.Lexemes
import MarkupScript.Proofs.Print.ReadsBack

/-!
# Comparisons that do not look like tags

Between statements, a `<` opens a tag if the token in front of it does not end an operand. A string
does not, a property that is a keyword does not, and a constant does not right behind a tag. In
brackets a `<` always compares. The braces of an object are brackets too, but not at the beginning
of an attribute or of a part of a `for`, nor behind `++` and `--` between statements, where they
count as a block.

`Program.keepsComparisons` tests that no comparison of a program is in the way of this rule. All
programs that read back pass.
-/

namespace MarkupScript

/-- Whether an operator starts with the mark that opens a tag. -/
def BinaryOp.isLess : BinaryOp → Bool
  | less | lessEqual => true
  | _ => false

/-! ### Expressions -/

mutual

/-- Whether the left operand of every comparison in the text of an expression, outside brackets,
ends an operand. -/
def Expr.isClear : Expr → Bool
  | .binary left op right _ =>
    (!op.isLess || left.level < Level.binary op || !left.endsInText) &&
      (op == .nullish && left.isLogical || left.level < Level.binary op || left.isClear) &&
      (op == .nullish && right.isLogical || right.level < Level.binary op + 1 || right.isClear)
  | .unary _ operand _ => operand.level < Level.unary || operand.isClear
  | .update _ inFront operand _ =>
    operand.isClear && (!inFront || !startsWithBrace operand.lexemes || operand.startsClear)
  | .member object _ _ _ _ => object.level < Level.call || object.isClear
  | .call callee _ _ => callee.level < Level.call || callee.isClear
  | .new callee _ _ => callee.isCall || callee.level < Level.call || callee.isClear
  | .conditional test consequent alternate _ =>
    (test.level < Level.conditional + 1 || test.isClear) && consequent.isClear && alternate.isClear
  | .arrow _ body _ => body.isClear
  | .assignment target _ value _ => target.isClear && value.isClear
  | .number _ _ | .string _ _ | .boolean _ _ | .null _ | .this_ _ | .identifier _ _ | .object _ _
  | .array _ _ => true

/-- Whether this holds inside the braces that the text of an expression starts with, if they count
as a block. -/
def Expr.startsClear : Expr → Bool
  | .object properties _ => propertiesClear properties
  | .binary first _ _ _ | .update _ _ first _ | .member first _ _ _ _ | .call first _ _
  | .conditional first _ _ _ | .assignment first _ _ _ => first.startsClear
  | .number _ _ | .string _ _ | .boolean _ _ | .null _ | .this_ _ | .identifier _ _ | .unary _ _ _
  | .new _ _ _ | .array _ _ | .arrow _ _ _ => true

/-- Whether the values of properties are clear. -/
def propertiesClear : List Property → Bool
  | [] => true
  | ⟨_, value, _⟩ :: rest => value.isClear && propertiesClear rest

/-- Whether the body of an arrow function is clear, as far as it stands on the same line. -/
def ArrowBody.isClear : ArrowBody → Bool
  | .expression value => startsWithBrace value.lexemes || value.isClear
  | .block _ => true

end

theorem propertiesClear_iff {ps : List Property} :
    propertiesClear ps = true ↔ ∀ p ∈ ps, p.value.isClear = true := by
  induction ps with
  | nil => simp [propertiesClear]
  | cons p ps ih =>
    obtain ⟨key, value, shorthand⟩ := p
    simp [propertiesClear, ih]

/-- Whether the text of an expression is a number, a boolean or null. A number that is not finite is
written as a name. -/
def Expr.isWrittenConstant : Expr → Bool
  | number value _ => value.isFinite
  | boolean _ _ | null _ => true
  | _ => false

/-- Whether the text of an expression starts with a constant on the left of a comparison. -/
def Expr.opensComparison : Expr → Bool
  | binary left op _ _ =>
    op.isLess && left.isWrittenConstant ||
      !(op == .nullish && left.isLogical) && Level.binary op ≤ left.level && left.opensComparison
  | conditional test _ _ _ => Level.conditional < test.level && test.opensComparison
  | _ => false

/-- Whether an expression is clear in brackets, at a place where braces count as a block. -/
def Expr.isClearInside (e : Expr) : Bool := !startsWithBrace e.lexemes || e.startsClear

/-! ### Statements -/

/-- Whether the values of attributes are clear as far as they have to be. -/
def attributesClear (attributes : List Attribute) : Bool :=
  attributes.all fun
    | .braced _ value => value.isClearInside
    | _ => true

theorem attributesClear_iff {as : List Attribute} :
    attributesClear as = true ↔ ∀ x e, .braced x e ∈ as → e.isClearInside = true := by
  simp only [attributesClear, List.all_eq_true]
  refine ⟨fun h x e hm => h _ hm, fun h a ha => ?_⟩
  cases a with
  | braced x e => exact h x e ha
  | _ => rfl

/-- Whether a statement is clear in the text that does not belong to statements inside it. -/
def Stmt.isClear : Stmt → Bool
  | .expression value => startsWithBrace value.lexemes || value.isClear
  | .declaration _ ds => ds.all fun d => d.init.all Expr.isClear
  | .return_ value => value.all Expr.isClear
  | .for_ _ test update _ => test.all Expr.isClearInside && update.all Expr.isClearInside
  | .elementStart _ attributes _ | .element _ attributes _ => attributesClear attributes
  | _ => true

/-- Whether the text of a statement starts with a constant on the left of a comparison. -/
def Stmt.opensComparison : Stmt → Bool
  | .expression value => !startsWithBrace value.lexemes && value.opensComparison
  | _ => false

/-- Whether the last token of a statement is the end of a tag. -/
def Stmt.endsWithTag (s : Stmt) : Bool := s.lexemes.getLast?.any (·.kind == .symbol .tagEnd)

/-- Whether a constant on the left of a comparison follows a tag. -/
def comparesBehindTag : List Stmt → Bool
  | s :: next :: rest => s.endsWithTag && next.opensComparison || comparesBehindTag (next :: rest)
  | _ => false

/-- Whether statements on lines of their own are clear. -/
def linesClear (body : List Stmt) : Bool := body.all Stmt.isClear && !comparesBehindTag body

/-- Whether the statements directly inside an expression are clear. -/
def Expr.keepsComparisons : Expr → Bool
  | .arrow _ (.block body) _ => linesClear body
  | _ => true

/-- Whether the statements directly inside a statement are clear. -/
def Stmt.keepsComparisons : Stmt → Bool
  | .function _ _ body _ | .block body => linesClear body
  | .if_ _ consequent alternate => consequent.isClear && alternate.all Stmt.isClear
  | .while_ _ body | .for_ _ _ _ body => body.isClear
  | .export_ declared => declared.isClear
  | _ => true

/-- Whether no comparison of a program looks like a tag. -/
def Program.keepsComparisons (p : Program) : Bool :=
  linesClear p.body && p.every Expr.keepsComparisons Stmt.keepsComparisons

/-! ### Programs that read back -/

variable {g : Stmt → Bool}

mutual

theorem Expr.clear_of_every : ∀ e : Expr, e.every Expr.readsBack g = true →
    e.isClear = true ∧ e.startsClear = true
  | .binary left op right _, h => by
    simp only [Expr.every, Bool.and_eq_true] at h
    have hl := left.clear_of_every h.1.2
    have hr := right.clear_of_every h.2
    have hop := h.1.1
    refine ⟨?_, hl.2⟩
    cases op <;> simp_all [Expr.isClear, BinaryOp.isLess, Expr.readsBack, Expr.isCompared]
  | .unary _ operand _, h => by
    simp only [Expr.every, Bool.and_eq_true] at h
    simp [Expr.isClear, Expr.startsClear, operand.clear_of_every h.2]
  | .update _ _ operand _, h => by
    simp only [Expr.every, Bool.and_eq_true] at h
    simp [Expr.isClear, Expr.startsClear, operand.clear_of_every h.2]
  | .member object _ _ _ _, h => by
    simp only [Expr.every, Bool.and_eq_true] at h
    simp [Expr.isClear, Expr.startsClear, object.clear_of_every h.1.2]
  | .call callee _ _, h => by
    simp only [Expr.every, Bool.and_eq_true] at h
    simp [Expr.isClear, Expr.startsClear, callee.clear_of_every h.1.2]
  | .new callee _ _, h => by
    simp only [Expr.every, Bool.and_eq_true] at h
    simp [Expr.isClear, Expr.startsClear, callee.clear_of_every h.1.2]
  | .conditional test consequent alternate _, h => by
    simp only [Expr.every, Bool.and_eq_true] at h
    simp [Expr.isClear, Expr.startsClear, test.clear_of_every h.1.1.2,
      consequent.clear_of_every h.1.2, alternate.clear_of_every h.2]
  | .object properties _, h => by
    simp only [Expr.every, Bool.and_eq_true] at h
    exact ⟨rfl, propertiesClear_of_every properties h.2⟩
  | .arrow _ body _, h => by
    simp only [Expr.every, Bool.and_eq_true] at h
    exact ⟨body.isClear_of_every h.2, rfl⟩
  | .assignment target _ value _, h => by
    simp only [Expr.every, Bool.and_eq_true] at h
    simp [Expr.isClear, Expr.startsClear, target.clear_of_every h.1.2, value.clear_of_every h.2]
  | .number _ _, _ | .string _ _, _ | .boolean _ _, _ | .null _, _ | .this_ _, _
  | .identifier _ _, _ | .array _ _, _ => ⟨rfl, rfl⟩
termination_by structural e => e

theorem propertiesClear_of_every : ∀ ps : List Property,
    everyProperty Expr.readsBack g ps = true → propertiesClear ps = true
  | [], _ => rfl
  | ⟨_, value, _⟩ :: rest, h => by
    simp only [everyProperty, Bool.and_eq_true] at h
    simp [propertiesClear, value.clear_of_every h.1, propertiesClear_of_every rest h.2]
termination_by structural ps => ps

theorem ArrowBody.isClear_of_every : ∀ body : ArrowBody,
    body.every Expr.readsBack g = true → body.isClear = true
  | .expression value, h => by
    simp only [ArrowBody.every] at h
    simp [ArrowBody.isClear, value.clear_of_every h]
  | .block _, _ => rfl
termination_by structural body => body

end

theorem Expr.opensComparison_of_every : ∀ e : Expr,
    e.every Expr.readsBack g = true → e.opensComparison = false
  | .binary left op right _, h => by
    simp only [Expr.every, Bool.and_eq_true] at h
    have hl := left.opensComparison_of_every h.1.2
    have hop := h.1.1
    have hconstant : left.isConstant = false → left.isWrittenConstant = false := by
      cases left <;> rintro ⟨⟩ <;> rfl
    cases op <;>
      simp_all [Expr.opensComparison, BinaryOp.isLess, Expr.readsBack, Expr.isCompared]
  | .conditional test _ _ _, h => by
    simp only [Expr.every, Bool.and_eq_true] at h
    simp [Expr.opensComparison, test.opensComparison_of_every h.1.1.2]
  | .number _ _, _ | .string _ _, _ | .boolean _ _, _ | .null _, _ | .this_ _, _
  | .identifier _ _, _ | .unary _ _ _, _ | .update _ _ _ _, _ | .member _ _ _ _ _, _
  | .call _ _ _, _ | .new _ _ _, _ | .object _ _, _ | .array _ _, _ | .arrow _ _ _, _
  | .assignment _ _ _ _, _ => rfl
termination_by structural e => e

theorem Stmt.isClear_of_every {s : Stmt} (h : s.every Expr.readsBack g = true) :
    s.isClear = true := by
  have hinside {e : Expr} (he : e.every Expr.readsBack g = true) :
      e.isClearInside = true := by
    simp [Expr.isClearInside, e.clear_of_every he]
  cases s with
  | expression value =>
    simp only [Stmt.every, Bool.and_eq_true] at h
    simp [Stmt.isClear, value.clear_of_every h.2]
  | declaration kind ds =>
    simp only [Stmt.every, Bool.and_eq_true, everyDeclarator_iff] at h
    simp only [Stmt.isClear, List.all_eq_true, Option.all_eq_true]
    exact fun d hd e he => (e.clear_of_every (h.2 d hd e he)).1
  | return_ value =>
    simp only [Stmt.every, Bool.and_eq_true, everyExpr?_iff] at h
    simp only [Stmt.isClear, Option.all_eq_true]
    exact fun e he => (e.clear_of_every (h.2 e he)).1
  | for_ init test update body =>
    simp only [Stmt.every, Bool.and_eq_true, everyExpr?_iff] at h
    simp only [Stmt.isClear, Bool.and_eq_true, Option.all_eq_true]
    exact ⟨fun e he => hinside (h.1.1.2 e he), fun e he => hinside (h.1.2 e he)⟩
  | elementStart name as span =>
    simp only [Stmt.every, Bool.and_eq_true, everyAttribute_iff] at h
    exact attributesClear_iff.mpr fun x e hm => hinside (h.2 x e hm)
  | element name as span =>
    simp only [Stmt.every, Bool.and_eq_true, everyAttribute_iff] at h
    exact attributesClear_iff.mpr fun x e hm => hinside (h.2 x e hm)
  | _ => rfl

theorem comparesBehindTag_of_every {body : List Stmt}
    (h : ∀ s ∈ body, s.every Expr.readsBack g = true) :
    comparesBehindTag body = false := by
  induction body with
  | nil => rfl
  | cons s body ih =>
    have hbody := ih fun t ht => h t (List.mem_cons_of_mem _ ht)
    cases body with
    | nil => rfl
    | cons next rest =>
      have hnext : next.opensComparison = false := by
        have hevery := h next (List.mem_cons_of_mem _ List.mem_cons_self)
        cases next with
        | expression value =>
          simp only [Stmt.every, Bool.and_eq_true] at hevery
          simp [Stmt.opensComparison, value.opensComparison_of_every hevery.2]
        | _ => rfl
      simp [comparesBehindTag, hnext, hbody]

theorem linesClear_of_every {body : List Stmt}
    (h : everyStmt Expr.readsBack g body = true) : linesClear body = true := by
  rw [everyStmt_iff] at h
  simp only [linesClear, comparesBehindTag_of_every h, Bool.not_false, Bool.and_true,
    List.all_eq_true]
  exact fun s hs => Stmt.isClear_of_every (h s hs)

theorem Expr.keepsComparisons_of_every {e : Expr}
    (h : e.every Expr.readsBack g = true) : e.keepsComparisons = true := by
  cases e with
  | arrow params body span =>
    cases body with
    | expression value => rfl
    | block body =>
      simp only [Expr.every, ArrowBody.every, Bool.and_eq_true] at h
      exact linesClear_of_every h.2
  | _ => rfl

theorem Stmt.keepsComparisons_of_every {s : Stmt}
    (h : s.every Expr.readsBack g = true) : s.keepsComparisons = true := by
  cases s with
  | function name params body decorator =>
    simp only [Stmt.every, Bool.and_eq_true] at h
    exact linesClear_of_every h.1.2
  | block body =>
    simp only [Stmt.every, Bool.and_eq_true] at h
    exact linesClear_of_every h.2
  | if_ test consequent alternate =>
    simp only [Stmt.every, Bool.and_eq_true, everyStmt?_iff] at h
    simp only [Stmt.keepsComparisons, Bool.and_eq_true, Option.all_eq_true]
    exact ⟨Stmt.isClear_of_every h.1.2, fun t ht => Stmt.isClear_of_every (h.2 t ht)⟩
  | while_ test body =>
    simp only [Stmt.every, Bool.and_eq_true] at h
    exact Stmt.isClear_of_every h.2
  | for_ init test update body =>
    simp only [Stmt.every, Bool.and_eq_true] at h
    exact Stmt.isClear_of_every h.2
  | export_ declared =>
    simp only [Stmt.every, Bool.and_eq_true] at h
    exact Stmt.isClear_of_every h.2
  | _ => rfl

/-- A program whose expressions read back has no comparison that looks like a tag. -/
theorem Program.keepsComparisons_of_readsBack {p : Program}
    (h : p.every Expr.readsBack g = true) : p.keepsComparisons = true := by
  simp only [Program.keepsComparisons, Program.every, Bool.and_eq_true, everyStmt_iff]
  refine ⟨linesClear_of_every h, fun s hs => ?_⟩
  exact (every_of_every (fun _ => Expr.keepsComparisons_of_every)
    fun _ => Stmt.keepsComparisons_of_every).stmt s (everyStmt_iff.mp h s hs)

end MarkupScript
