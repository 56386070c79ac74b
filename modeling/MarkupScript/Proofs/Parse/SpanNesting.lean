import Mathlib.Data.List.Basic
import MarkupScript.Proofs.Parse.Placing
import MarkupScript.Proofs.Tree.Count

/-!
# The spans of parsed programs nest

Each rule of the grammar places its results well if the rules for its parts do. What is read after
another part, such as the members and calls of a chain or the right side of an operator, comes behind
it, and the whole starts where the first part started. An expression in parentheses keeps its own
span, so that a part can start behind the first token of the whole. By induction on the depth of the
rules, this holds of every program.
-/

namespace MarkupScript

variable {l : Lexing}

/-- An expression with no block is placed well with all its parts, if it and they are. -/
theorem Expr.IsNested.of_children {e : Expr} (hblock : e.block = [])
    (he : e.IsPlaced l.tokens l.source.length) (hchildren : ∀ c ∈ e.children, c.IsNested l) :
    e.IsNested l :=
  isNested_iff.mpr ⟨he, hchildren, by simp [hblock]⟩

theorem forall_mem_pair {α : Type} {P : α → Prop} {a b : α} (ha : P a) (hb : P b) :
    ∀ c ∈ [a, b], P c :=
  List.forall_mem_cons.mpr ⟨ha, List.forall_mem_singleton.mpr hb⟩

theorem Expr.IsNested.member {base property : Expr} {computed optional : Bool} {span : Span}
    (hspan : span.IsPlaced l.tokens l.source.length [base.span, property.span])
    (hbase : base.IsNested l) (hproperty : property.IsNested l) :
    (Expr.member base property computed optional span).IsNested l :=
  .of_children rfl hspan (forall_mem_pair hbase hproperty)

theorem Expr.IsNested.call {callee : Expr} {arguments : List Expr} {span : Span}
    (hspan : span.IsPlaced l.tokens l.source.length (callee.span :: arguments.map Expr.span))
    (hcallee : callee.IsNested l) (harguments : ∀ e ∈ arguments, e.IsNested l) :
    (Expr.call callee arguments span).IsNested l :=
  .of_children rfl hspan (List.forall_mem_cons.mpr ⟨hcallee, harguments⟩)

theorem Expr.IsNested.binary {left right : Expr} {op : BinaryOp} {span : Span}
    (hspan : span.IsPlaced l.tokens l.source.length [left.span, right.span])
    (hleft : left.IsNested l) (hright : right.IsNested l) :
    (Expr.binary left op right span).IsNested l :=
  .of_children rfl hspan (forall_mem_pair hleft hright)

namespace Parse

/-- A parser of expressions places them well. -/
def PlacesExpr (l : Lexing) (p : Parse Expr) : Prop :=
  Places l p (Expr.IsNested l) fun e => [e.span]

/-- A parser of statements places them well. -/
def PlacesStmt (l : Lexing) (p : Parse Stmt) : Prop :=
  Places l p (Stmt.IsNested l) Stmt.outermost

end Parse

/-- The rules for the parts of a construct place them well. -/
structure Rules.Place (l : Lexing) (rules : Rules) : Prop where
  expression : Parse.PlacesExpr l rules.expression
  operand : Parse.PlacesExpr l rules.operand
  statement : Parse.PlacesStmt l rules.statement

namespace Parse

variable {rules : Rules} {lo : Nat} {spans : List Span} {t : Token}

/-! ### Nodes -/

theorem Brings.node {e : Span → Expr} (ht : t ∈ l.tokens) (hspan : ∀ span, (e span).span = span)
    (he : ∀ span, span.IsPlaced l.tokens l.source.length spans → (e span).IsNested l) :
    Brings (l.Passed t.span.start spans) (do return e (← Parse.spanFrom t.span))
      (Expr.IsNested l) fun e => l.Passed t.span.start [e.span] := by
  refine .bind (.spanFrom ht) fun span hplaced => .pure (he span hplaced) fun s hs => ?_
  rwa [hspan]

/-- The spans of expressions in a list. -/
theorem Brings.expressions {p : Parse Expr} (hp : PlacesExpr l p) {close : Symbol} :
    Brings (l.Passed lo spans) (Parse.commaList close p) (fun es => ∀ e ∈ es, e.IsNested l)
      fun es => l.Passed lo (spans ++ es.map Expr.span) := by
  simp only [List.map_eq_flatMap]
  exact .commaList hp

section

variable (h : rules.Place l)
include h

/-! ### Arrow functions -/

omit h in
theorem Skips.params : Skips l params := fun t =>
  .bind (Skips.expectSymbol _ t) fun _ _ => (Brings.commaList Skips.identifier).forget

theorem Places.block : Places l (block rules) (fun body => ∀ s ∈ body, s.IsNested l)
    outermostAll := by
  intro t
  refine .bind (Skips.expectSymbol _ t) fun _ _ => .bind (.itemsWhile h.statement) fun body hbody =>
    .bind (Skips.expectSymbol _).next fun _ _ => .pure hbody fun s hs => ?_
  rwa [outermostAll_eq]

theorem Places.functionBody : Places l (functionBody rules) (fun body => ∀ s ∈ body, s.IsNested l)
    outermostAll :=
  (block h).withoutElements

theorem PlacesExpr.arrow : PlacesExpr l (arrow rules) := by
  intro t
  refine .peek fun ht => .check ?_
  have hbody (xs : List String) : Brings (l.Passed t.span.start []) (do
      Parse.expectSymbol .arrow
      let body ←
        if ← Parse.check (.symbol .leftBrace) then ArrowBody.block <$> Parse.functionBody rules
        else ArrowBody.expression <$> rules.expression
      return Expr.arrow xs body (← Parse.spanFrom t.span)) (Expr.IsNested l)
      fun e => l.Passed t.span.start [e.span] := by
    refine .bind (Skips.expectSymbol _).next fun _ _ => .glance (run_check _) fun b => ?_
    dsimp only
    split
    · rw [bind_map_left]
      exact .bind (Places.functionBody h).next fun body hbody => .node ht (fun _ => rfl)
        fun _ hspan => Expr.isNested_iff.mpr ⟨hspan, List.forall_mem_nil _, hbody⟩
    · rw [bind_map_left]
      exact .bind h.expression.next fun e he => .node ht (fun _ => rfl) fun _ hspan =>
        .of_children rfl hspan (List.forall_mem_singleton.mpr he)
  dsimp only
  split
  · exact .bind (Skips.params t) fun xs _ => hbody xs
  · exact .bind (Skips.identifier t) fun x _ => .pure_bind (hbody [x])

/-! ### Primary expressions -/

theorem Places.arguments : Places l (arguments rules) (fun es => ∀ e ∈ es, e.IsNested l)
    (·.map Expr.span) := fun t =>
  .bind (Skips.expectSymbol _ t) fun _ _ => .expressions h.expression

theorem PlacesExpr.array : PlacesExpr l (array rules) := fun t =>
  .peek fun ht => .bind (Skips.expectSymbol _ t) fun _ _ =>
    .bind (.expressions h.expression) fun _ hes => .node ht (fun _ => rfl) fun _ hspan =>
      .of_children rfl hspan hes

theorem Places.property : Places l (property rules) (fun p => p.value.IsNested l)
    fun p => [p.value.span] := by
  intro t
  refine .peek fun ht => ?_
  split
  · exact .failExpecting
  · next hkey =>
    refine .bind (.take (kind_ne_end rfl hkey)) fun _ hspan => .bind (.eat (by simp)) fun b _ => ?_
    split
    · exact .pre (.bind h.expression.next fun _ he => .pure he fun _ => id) fun _ => .forget
    · split
      · exact .pure (.of_children rfl hspan (List.forall_mem_nil _)) fun _ => id
      · exact .failExpecting

theorem PlacesExpr.object : PlacesExpr l (object rules) := by
  intro t
  refine .peek fun ht => .bind (Skips.expectSymbol _ t) fun _ _ =>
    .bind (.commaList (Places.property h)) fun ps hps => .node ht (fun _ => rfl) fun span hspan => ?_
  refine .of_children rfl ?_ (List.forall_mem_map.mpr hps)
  change span.IsPlaced _ _ ((ps.map (·.value)).map Expr.span)
  rw [List.map_map, List.map_eq_flatMap]
  exact hspan

/-- An expression in parentheses keeps its own span. -/
theorem PlacesExpr.parenthesised : PlacesExpr l (parenthesised rules) := fun t =>
  .bind (Skips.expectSymbol _ t) fun _ _ => .bind h.expression.next fun _ he =>
    .bind (Skips.expectSymbol _).next fun _ _ => .pure he fun _ => id

omit h in
theorem leaf_of_atom? {e : Expr} (he : atom? t = some e) :
    e.span = t.span ∧ t.kind ≠ .endOfInput ∧ e.block = [] ∧ e.parts = [] ∧ e.children = [] := by
  unfold atom? at he
  split at he <;> cases he <;> simp_all [Expr.span, Expr.block, Expr.parts, Expr.children]

theorem PlacesExpr.primary : PlacesExpr l (primary rules) := by
  intro t
  refine .peek fun ht => ?_
  split
  · next e he =>
    obtain ⟨hspan, hkind, hblock, hparts, hchildren⟩ := leaf_of_atom? he
    refine .bind (.take hkind) fun _ hplaced => .pure (.of_children hblock ?_ ?_) fun s hs => ?_
    · rwa [Expr.IsPlaced, hspan, hparts]
    · simp [hchildren]
    · change l.Passed t.span.start [e.span] s
      rwa [hspan]
  · split
    · exact parenthesised h t
    · exact array h t
    · exact object h t
    · exact .fail

/-! ### Calls and members -/

omit h in
theorem PlacesExpr.propertyName : PlacesExpr l propertyName := fun _ =>
  .peek fun _ => .bind .word fun _ hspan =>
    .pure (.of_children rfl hspan (List.forall_mem_nil _)) fun _ => id

omit h in
theorem Brings.newCallee (ht : t ∈ l.tokens) {n : Nat} {e : Expr} (he : e.IsNested l) :
    Brings (l.Passed t.span.start [e.span]) (newCallee t.span n e) (Expr.IsNested l)
      fun e => l.Passed t.span.start [e.span] := by
  induction n generalizing e with
  | zero => exact .fail
  | succ n ih =>
    refine .bind (.eat (by simp)) fun b _ => ?_
    split
    · exact .bind PlacesExpr.propertyName.next fun _ hproperty => .bind (.spanFrom ht)
        fun _ hspan => ih (.member hspan he hproperty)
    · exact .pure he fun _ => id

theorem Brings.new (hkind : t.kind ≠ .endOfInput) : Brings (l.Starts t) (new rules)
    (Expr.IsNested l) fun e => l.Passed t.span.start [e.span] := by
  refine .peek fun ht => .bind (.advance hkind) fun _ _ => .glance run_budget fun n =>
    .bind (PlacesExpr.primary h).next fun e he => .bind (.newCallee ht he) fun callee hcallee =>
    .glance (run_check _) fun b => ?_
  dsimp only
  split
  · exact .bind (Places.arguments h).next fun es hes => .node ht (fun _ => rfl) fun _ hspan =>
      .of_children rfl hspan (List.forall_mem_cons.mpr ⟨hcallee, hes⟩)
  · exact .pure_bind (.node ht (fun _ => rfl) fun _ hspan =>
      .of_children rfl hspan (List.forall_mem_singleton.mpr hcallee))

/-- All members and calls of a chain start where the chain does. -/
theorem Brings.chain (ht : t ∈ l.tokens) {n : Nat} {e : Expr} (he : e.IsNested l) :
    Brings (l.Passed t.span.start [e.span]) (chain rules t.span n e) (Expr.IsNested l)
      fun e => l.Passed t.span.start [e.span] := by
  induction n generalizing e with
  | zero => exact .fail
  | succ n ih =>
    have hname (optional : Bool) : Brings (l.Passed t.span.start [e.span]) (do
        let property ← Parse.propertyName
        Parse.chain rules t.span n (.member e property false optional (← Parse.spanFrom t.span)))
        (Expr.IsNested l) fun e => l.Passed t.span.start [e.span] :=
      .bind PlacesExpr.propertyName.next fun _ hproperty => .bind (.spanFrom ht) fun _ hspan =>
        ih (.member hspan he hproperty)
    refine .look run_peekKind fun k => ?_
    split
    · exact .bind (.advance_kind (by simp)) fun _ _ => hname false
    · exact .bind (.advance_kind (by simp)) fun _ _ => hname true
    · exact .bind (.advance_kind (by simp)) fun _ _ =>
        .bind h.expression.next fun _ hproperty => .bind (Skips.expectSymbol _).next fun _ _ =>
        .bind (.spanFrom ht) fun _ hspan =>
          ih (.member hspan he hproperty)
    · exact .pre (.bind (Places.arguments h).next fun _ hes => .bind (.spanFrom ht) fun _ hspan =>
        ih (.call hspan he hes)) fun _ hs => hs.1
    · exact .pure he fun _ hs => hs.1

theorem PlacesExpr.callMember : PlacesExpr l (callMember rules) := by
  intro t
  refine .peek fun ht => .check ?_
  dsimp only
  split
  · next hnew =>
    exact .bind (.new h (by simp_all)) fun _ he => .glance run_budget fun _ => .chain h ht he
  · exact .bind (primary h t) fun _ he => .glance run_budget fun _ => .chain h ht he

/-! ### Operators -/

omit h in
theorem Brings.checkUpdateTarget {P : Stream → Prop} {e : Expr} :
    Brings P (checkUpdateTarget e) (fun _ => True) fun _ => P := by
  unfold Parse.checkUpdateTarget
  split
  · exact .pure trivial fun _ => id
  · exact .fail

theorem PlacesExpr.postfixed : PlacesExpr l (postfixed rules) := by
  intro t
  refine .peek fun ht => .bind (callMember h t) fun e he => .look run_peek fun u => ?_
  split
  · exact .pure he fun _ hs => hs.1
  · split
    · exact .pure he fun _ hs => hs.1
    · next hop =>
      have hkind := kind_ne_end rfl hop
      exact .bind .checkUpdateTarget fun _ _ =>
        .bind (.advance_seen fun s hs => ⟨hs.1, by rwa [Stream.kind, hs.2]⟩) fun _ _ =>
        .node ht (fun _ => rfl) fun _ hspan =>
          .of_children rfl hspan (List.forall_mem_singleton.mpr he)

theorem PlacesExpr.operand : PlacesExpr l (operand rules) := by
  intro t
  refine .peek fun ht => .peekKind ?_
  split
  · next op _ hop =>
    exact .bind (.advance (kind_ne_end rfl hop)) fun _ _ => .bind h.operand.next fun _ he =>
      .node ht (fun _ => rfl) fun _ hspan =>
        .of_children rfl hspan (List.forall_mem_singleton.mpr he)
  · next hop =>
    exact .bind (.advance (kind_ne_end rfl hop)) fun _ _ => .bind h.operand.next fun _ he =>
      .bind .checkUpdateTarget fun _ _ => .node ht (fun _ => rfl) fun _ hspan =>
        .of_children rfl hspan (List.forall_mem_singleton.mpr he)
  · exact postfixed h t

omit h in
/-- All operations in a row of operators start where the row does. -/
theorem Brings.operators (ht : t ∈ l.tokens) {right : Nat → Parse Expr}
    (hright : ∀ least, PlacesExpr l (right least)) {least n : Nat} {e : Expr}
    (he : e.IsNested l) :
    Brings (l.Passed t.span.start [e.span]) (operators right t.span least n e) (Expr.IsNested l)
      fun e => l.Passed t.span.start [e.span] := by
  induction n generalizing e with
  | zero => exact .fail
  | succ n ih =>
    refine .look run_peekKind fun k => ?_
    split
    · exact .pure he fun _ hs => hs.1
    · next op hop =>
      split
      · exact .pure he fun _ hs => hs.1
      · exact .bind (.advance_kind (kind_ne_end rfl hop)) fun _ _ =>
          .bind (hright _).next fun _ hr => .bind (.spanFrom ht) fun _ hspan =>
          ih (.binary hspan he hr)

theorem PlacesExpr.climb {levels least : Nat} : PlacesExpr l (climb rules levels least) := by
  induction levels generalizing least with
  | zero => exact operand h
  | succ levels ih =>
    exact fun t => .peek fun ht => .bind (operand h t) fun _ he => .glance run_budget fun _ =>
      .operators ht (fun _ => ih) he

theorem PlacesExpr.conditional : PlacesExpr l (conditional rules) := by
  intro t
  refine .peek fun ht => .bind (climb h t) fun test htest => .bind (.eat (by simp)) fun b _ => ?_
  split
  · exact .bind h.expression.next fun _ hc => .bind (Skips.expectSymbol _).next fun _ _ =>
      .bind h.expression.next fun _ ha => .node ht (fun _ => rfl) fun _ hspan =>
        .of_children rfl hspan (List.forall_mem_cons.mpr ⟨htest, forall_mem_pair hc ha⟩)
  · exact .pure htest fun _ => id

theorem PlacesExpr.expression : PlacesExpr l (expression rules) := by
  intro t
  refine .glance run_get fun s => ?_
  split
  · exact arrow h t
  · refine .peek fun ht => .bind (conditional h t) fun target htarget =>
      .look run_peekKind fun k => ?_
    split
    · exact .pure htarget fun _ hs => hs.1
    · next op hop =>
      have hassign : Brings (fun s => l.Passed t.span.start [target.span] s ∧ s.kind = k) (do
          Parse.advance
          let value ← rules.expression
          return Expr.assignment target op value (← Parse.spanFrom t.span)) (Expr.IsNested l)
          fun e => l.Passed t.span.start [e.span] :=
        .bind (.advance_kind (kind_ne_end rfl hop)) fun _ _ =>
          .bind h.expression.next fun _ hvalue => .node ht (fun _ => rfl) fun _ hspan =>
            .of_children rfl hspan (forall_mem_pair htarget hvalue)
      split
      · exact hassign
      · exact .of_never fun _ _ _ hfail => fail_ne_ok.mp hfail

/-! ### Markup -/

omit h in
/-- A statement is placed well with all its parts, if they are and lie in a row. -/
theorem Brings.stmt {st : Stmt} (houtermost : st.outermost = spans)
    (hmarkup : ∀ node ∈ st.markup,
      node.1.IsPlaced l.tokens l.source.length (node.2.map Expr.span))
    (hchildren : ∀ e ∈ st.children, e.IsNested l) (hinner : ∀ s ∈ st.inner, s.IsNested l) :
    Brings (l.Passed lo spans) (Pure.pure st) (Stmt.IsNested l)
      fun st => l.Passed lo st.outermost := by
  subst houtermost
  rintro s _ _ hs ⟨⟩
  exact ⟨Stmt.isNested_iff.mpr ⟨⟨hmarkup, hs.row.ordered⟩, hchildren, hinner⟩, hs⟩

omit h in
theorem spans_filterMap {α : Type} (f : α → Option Expr) (as : List α) :
    (as.flatMap fun a => (f a).toList.map Expr.span) = (as.filterMap f).map Expr.span := by
  rw [List.filterMap_eq_flatMap_toList, List.map_flatMap]

theorem Places.tagAttribute : Places l (tagAttribute rules) (fun a => ∀ e ∈ a.value?, e.IsNested l)
    fun a => a.value?.toList.map Expr.span := by
  intro t
  refine .bind (Skips.name t) fun x _ => .bind (.eat (by simp)) fun b _ => ?_
  split
  · refine .look run_peekKind fun k => ?_
    split
    · exact .bind (.advance_kind (by simp)) fun _ _ =>
        .pure (by simp [Attribute.value?]) fun _ => id
    · exact .bind (.advance_kind (by simp)) fun _ _ =>
        .bind h.expression.next fun e he => .bind (Skips.expectSymbol _).next fun _ _ =>
        .pure (by simpa [Attribute.value?] using he) fun _ => id
    · exact .fail
  · exact .pure (by simp [Attribute.value?]) fun _ => id

theorem Brings.startTag (ht : t ∈ l.tokens) {name : String} :
    Brings (l.Passed t.span.start []) (startTag rules t.span name) (Stmt.IsNested l)
      fun st => l.Passed t.span.start st.outermost := by
  refine .bind (.itemsWhile (Places.tagAttribute h)) fun as has => ?_
  have hvalues : ∀ e ∈ as.filterMap Attribute.value?, e.IsNested l := by
    intro e he
    obtain ⟨a, ha, hvalue⟩ := List.mem_filterMap.mp he
    exact has a ha e hvalue
  rw [List.nil_append, spans_filterMap]
  refine .bind (.eat (by simp)) fun b _ => ?_
  split
  · exact .bind (Skips.expectSymbol _).next fun _ _ => .bind (.spanFrom ht) fun span hspan =>
      .stmt rfl (List.forall_mem_singleton.mpr hspan) hvalues (List.forall_mem_nil _)
  · exact .bind (Skips.expectSymbol _).next fun _ _ =>
      .bind (.modify (fun _ => rfl) fun _ => rfl) fun _ _ => .bind (.spanFrom ht) fun span hspan =>
      .stmt rfl (List.forall_mem_singleton.mpr hspan) hvalues (List.forall_mem_nil _)

omit h in
theorem Brings.endTag (ht : t ∈ l.tokens) :
    Brings (l.Passed t.span.start []) (endTag t.span) (Stmt.IsNested l)
      fun st => l.Passed t.span.start st.outermost := by
  refine .bind Skips.name.next fun x _ => .bind (Skips.expectSymbol _).next fun _ _ =>
    .glance run_get fun s => ?_
  split
  · exact .failAt
  · exact .bind (.modify (fun _ => rfl) fun _ => rfl) fun _ _ => .bind (.spanFrom ht)
      fun span hspan => .stmt rfl (List.forall_mem_singleton.mpr hspan) (List.forall_mem_nil _)
        (List.forall_mem_nil _)

theorem PlacesStmt.tag : PlacesStmt l (tag rules) := by
  intro t
  refine .peek fun ht => .bind (Skips.expectSymbol _ t) fun _ _ => .look run_peekKind fun k => ?_
  split
  · exact .bind (.advance_kind (by simp)) fun _ _ => .startTag h ht
  · exact .bind (.advance_kind (by simp)) fun _ _ => .endTag ht
  · exact .failExpecting

omit h in
/-- The arguments of a decorator lie in the expression that it was read from. -/
theorem decoratorParts_nested {e : Expr} {name : String} {arguments : List Expr}
    (he : e.IsNested l) (hparts : decoratorParts? e = some (name, arguments)) :
    InRow e.span.start (arguments.map Expr.span) e.span.stop ∧
      ∀ a ∈ arguments, a.IsNested l := by
  obtain ⟨hplaced, hchildren, -⟩ := Expr.isNested_iff.mp he
  unfold decoratorParts? at hparts
  split at hparts
  · cases hparts
    exact ⟨hplaced.row.sublist (List.sublist_cons_self _ _), (List.forall_mem_cons.mp hchildren).2⟩
  · cases hparts
    exact ⟨hplaced.row, List.forall_mem_nil _⟩
  · cases hparts

theorem PlacesStmt.decorator : PlacesStmt l (decorator rules) := by
  intro t
  refine .peek fun ht => .bind (Skips.expectSymbol _ t) fun _ _ => .bind h.expression.next
    fun e he => ?_
  split
  · exact .failAt
  · next hparts =>
    obtain ⟨hrow, harguments⟩ := decoratorParts_nested he hparts
    refine .bind (.eat (by simp)) fun _ _ => .bind (.spanFrom ht) fun span hspan =>
      .stmt rfl (List.forall_mem_singleton.mpr ?_) harguments (List.forall_mem_nil _)
    exact { hspan with row := hspan.row.nest hrow }

/-! ### Declarations -/

theorem Places.declarator : Places l (declarator rules) (fun d => ∀ e ∈ d.init, e.IsNested l)
    fun d => d.init.toList.map Expr.span := by
  intro t
  refine .bind (Skips.identifier t) fun x _ => .bind (.eat (by simp)) fun b _ => ?_
  split
  · exact .bind (PlacesExpr.expression h).next fun e he => .pure (by simpa using he) fun _ => id
  · exact .pure (by simp) fun _ => id

theorem Brings.declaration (hkind : t.kind ≠ .endOfInput) {kind : VariableKind} :
    Brings (l.Starts t) (declaration rules kind) (Stmt.IsNested l)
      fun st => l.Passed t.span.start st.outermost := by
  refine .bind (.advance hkind) fun _ _ => .bind (.commaItems (Places.declarator h))
    fun ds hds => .stmt (spans_filterMap _ ds).symm (List.forall_mem_nil _) (fun e he => ?_)
      (List.forall_mem_nil _)
  obtain ⟨d, hd, hinit⟩ := List.mem_filterMap.mp he
  exact hds d hd e hinit

theorem Brings.declarationStatement (hkind : t.kind ≠ .endOfInput) {kind : VariableKind} :
    Brings (l.Starts t) (declarationStatement rules kind) (Stmt.IsNested l)
      fun st => l.Passed t.span.start st.outermost :=
  .bind (.declaration h hkind) fun _ hst => .bind .semicolon fun _ _ => .pure hst fun _ => id

theorem PlacesStmt.function : PlacesStmt l (function rules) := fun t =>
  .bind (Skips.expect (by simp) t) fun _ _ => .bind Skips.identifier.next fun _ _ =>
    .bind Skips.params.next fun _ _ => .bind (Places.functionBody h).next fun _ hbody =>
    .stmt rfl (List.forall_mem_nil _) (List.forall_mem_nil _) hbody

omit h in
theorem Skips.importSpecifier : Skips l importSpecifier := by
  intro t
  refine .bind (Skips.word t) fun x _ => .bind (.eat (by simp)) fun b _ => ?_
  split
  · exact .bind Skips.identifier.next fun _ _ => .pure trivial fun _ => id
  · exact .pure trivial fun _ => id

omit h in
theorem Skips.importSpecifiers : Skips l importSpecifiers := fun t =>
  .bind (Skips.expectSymbol _ t) fun _ _ => (Brings.commaList Skips.importSpecifier).forget

omit h in
theorem Brings.imports {x : Option String} {specifiers : List ImportSpecifier} {source : String} :
    Brings (l.Passed lo []) (do
      Parse.semicolon
      return Stmt.import_ x specifiers source) (Stmt.IsNested l)
      fun st => l.Passed lo st.outermost :=
  .bind .semicolon fun _ _ =>
    .stmt rfl (List.forall_mem_nil _) (List.forall_mem_nil _) (List.forall_mem_nil _)

omit h in
theorem Brings.importSource {x : Option String} {specifiers : List ImportSpecifier} :
    Brings (l.Passed lo []) (importSource x specifiers) (Stmt.IsNested l)
      fun st => l.Passed lo st.outermost := by
  refine .bind (.eat (by simp)) fun b _ => ?_
  split
  · refine .look run_peekKind fun k => ?_
    split
    · exact .bind (.advance_kind (by simp)) fun _ _ => .imports
    · exact .failExpecting
  · exact .of_never fun _ _ _ hfail => failExpecting_ne_ok.mp hfail

omit h in
theorem Brings.import_ (hkind : t.kind ≠ .endOfInput) :
    Brings (l.Starts t) import_ (Stmt.IsNested l)
      fun st => l.Passed t.span.start st.outermost := by
  refine .bind (.advance hkind) fun _ _ => .look run_peekKind fun k => ?_
  split
  · exact .bind (.advance_kind (by simp)) fun _ _ => .imports
  · refine .bind (.advance_kind (by simp)) fun _ _ =>
      .bind (.eat (by simp)) fun b _ => ?_
    dsimp only
    split
    · exact .bind Skips.importSpecifiers.next fun _ _ => .importSource
    · exact .pure_bind .importSource
  · exact .pre (.bind Skips.importSpecifiers.next fun _ _ => .importSource) fun _ hs => hs.1

theorem Brings.export_ (hkind : t.kind ≠ .endOfInput) :
    Brings (l.Starts t) (export_ rules) (Stmt.IsNested l)
      fun st => l.Passed t.span.start st.outermost := by
  refine .bind (.advance hkind) fun _ _ => .look run_peekKind fun k => ?_
  split
  · exact .pre (.bind (PlacesStmt.function h).next fun _ hst => .stmt rfl (List.forall_mem_nil _)
      (List.forall_mem_nil _) (List.forall_mem_singleton.mpr hst)) fun _ hs => hs.1
  · split
    · next hvariable =>
      have hk := kind_ne_end rfl hvariable
      exact .bind (.next (C := (· ≠ .endOfInput)) (fun _ hkind => .declarationStatement h hkind)
        fun s hs => ⟨hs.1, by rwa [hs.2]⟩) fun _ hst => .stmt rfl (List.forall_mem_nil _)
          (List.forall_mem_nil _) (List.forall_mem_singleton.mpr hst)
    · exact .failExpecting

/-! ### Control flow -/

theorem Brings.return_ (hkind : t.kind ≠ .endOfInput) :
    Brings (l.Starts t) (return_ rules) (Stmt.IsNested l)
      fun st => l.Passed t.span.start st.outermost := by
  refine .bind (.advance hkind) fun _ _ => .glance run_peek fun u => ?_
  split
  · exact .bind .semicolon fun _ _ =>
      .stmt rfl (List.forall_mem_nil _) (List.forall_mem_nil _) (List.forall_mem_nil _)
  · exact .bind (PlacesExpr.expression h).next fun _ he => .bind .semicolon fun _ _ =>
      .stmt rfl (List.forall_mem_nil _) (List.forall_mem_singleton.mpr he) (List.forall_mem_nil _)

theorem Brings.if_ (hkind : t.kind ≠ .endOfInput) :
    Brings (l.Starts t) (if_ rules) (Stmt.IsNested l)
      fun st => l.Passed t.span.start st.outermost := by
  refine .bind (.advance hkind) fun _ _ => .bind (PlacesExpr.parenthesised h).next fun test htest =>
    .bind h.statement.next fun consequent hconsequent => .bind (.eat (by simp)) fun b _ => ?_
  split
  · exact .bind h.statement.next fun _ halternate => .stmt rfl (List.forall_mem_nil _)
      (List.forall_mem_singleton.mpr htest) (forall_mem_pair hconsequent halternate)
  · exact .stmt (List.append_nil _) (List.forall_mem_nil _) (List.forall_mem_singleton.mpr htest)
      (List.forall_mem_singleton.mpr hconsequent)

theorem Brings.while_ (hkind : t.kind ≠ .endOfInput) :
    Brings (l.Starts t) (while_ rules) (Stmt.IsNested l)
      fun st => l.Passed t.span.start st.outermost :=
  .bind (.advance hkind) fun _ _ => .bind (PlacesExpr.parenthesised h).next fun _ htest =>
    .bind h.statement.next fun _ hbody => .stmt rfl (List.forall_mem_nil _)
      (List.forall_mem_singleton.mpr htest) (List.forall_mem_singleton.mpr hbody)

omit h in
theorem isNested_expression {e : Expr} (he : e.IsNested l) : (Stmt.expression e).IsNested l :=
  Stmt.isNested_iff.mpr ⟨⟨List.forall_mem_nil _, List.pairwise_singleton _ _⟩,
    List.forall_mem_singleton.mpr he, List.forall_mem_nil _⟩

theorem Brings.forInit : Brings (l.Passed lo spans) (forInit rules)
    (fun st => ∀ s ∈ st, s.IsNested l) fun st => l.Passed lo (spans ++ outermost? st) := by
  refine .look run_peekKind fun k => ?_
  split
  · exact .pure (by simp) fun s hs => by simpa [outermost?] using hs.1
  · split
    · next hvariable =>
      have hk := kind_ne_end rfl hvariable
      exact .bind (.next (C := (· ≠ .endOfInput)) (fun _ hkind => .declaration h hkind)
        fun s hs => ⟨hs.1, by rwa [hs.2]⟩) fun _ hst => .pure (by simpa using hst) fun _ => id
    · exact .pre (.bind (PlacesExpr.expression h).next fun _ he =>
        .pure (by simpa using isNested_expression he) fun _ => id) fun _ hs => hs.1

theorem Brings.expressionBefore {stop : Symbol} :
    Brings (l.Passed lo spans) (expressionBefore rules stop) (fun x => ∀ e ∈ x, e.IsNested l)
      fun x => l.Passed lo (spans ++ x.toList.map Expr.span) := by
  refine .glance (run_check _) fun b => ?_
  split
  · exact .pure (by simp) fun s hs => by simpa using hs
  · exact .bind (PlacesExpr.expression h).next fun _ he => .pure (by simpa using he) fun _ => id

theorem Brings.for_ (hkind : t.kind ≠ .endOfInput) :
    Brings (l.Starts t) (for_ rules) (Stmt.IsNested l)
      fun st => l.Passed t.span.start st.outermost := by
  refine .bind (.advance hkind) fun _ _ => .bind (Skips.expectSymbol _).next fun _ _ =>
    .bind (.forInit h) fun init hinit => .bind (Skips.expectSymbol _).next fun _ _ =>
    .bind (.expressionBefore h) fun test htest => .bind (Skips.expectSymbol _).next fun _ _ =>
    .bind (.expressionBefore h) fun update hupdate => .bind (Skips.expectSymbol _).next fun _ _ =>
    .bind h.statement.next fun body hbody => .stmt rfl (List.forall_mem_nil _)
      (fun e he => ?_) fun s hs => ?_
  · rcases List.mem_append.mp he with he | he
    · exact htest e (Option.mem_toList.mp he)
    · exact hupdate e (Option.mem_toList.mp he)
  · rcases List.mem_append.mp hs with hs | hs
    · exact hinit s (Option.mem_toList.mp hs)
    · obtain rfl := List.mem_singleton.mp hs
      exact hbody

omit h in
theorem Brings.wordStatement (hkind : t.kind ≠ .endOfInput) {st : Stmt} (hst : st.IsNested l)
    (houtermost : st.outermost = []) :
    Brings (l.Starts t) (wordStatement st) (Stmt.IsNested l)
      fun st => l.Passed t.span.start st.outermost :=
  .bind (.advance hkind) fun _ _ => .bind .semicolon fun _ _ => .pure hst fun s hs => by
    rwa [houtermost]

theorem PlacesStmt.expressionStatement : PlacesStmt l (expressionStatement rules) := fun t =>
  .bind (PlacesExpr.expression h t) fun _ he => .bind .semicolon fun _ _ =>
    .pure (isNested_expression he) fun _ => id

theorem PlacesStmt.statement : PlacesStmt l (statement rules) := by
  intro t
  refine .peekKind ?_
  split
  · exact tag h t
  · exact decorator h t
  · exact .bind (Places.block h t) fun _ hbody =>
      .stmt rfl (List.forall_mem_nil _) (List.forall_mem_nil _) hbody
  · next hkind =>
    exact .bind (.advance (by simp [hkind])) fun _ _ =>
      .stmt rfl (List.forall_mem_nil _) (List.forall_mem_nil _) (List.forall_mem_nil _)
  · next hkind => exact .declarationStatement h (by simp [hkind])
  · next hkind => exact .declarationStatement h (by simp [hkind])
  · next hkind => exact .declarationStatement h (by simp [hkind])
  · exact function h t
  · next hkind => exact .return_ h (by simp [hkind])
  · next hkind => exact .if_ h (by simp [hkind])
  · next hkind => exact .while_ h (by simp [hkind])
  · next hkind => exact .for_ h (by simp [hkind])
  · next hkind => exact .wordStatement (by simp [hkind]) rfl rfl
  · next hkind => exact .wordStatement (by simp [hkind]) rfl rfl
  · next hkind => exact .import_ (by simp [hkind])
  · next hkind => exact .export_ h (by simp [hkind])
  · exact expressionStatement h t

end

end Parse

/-! ### Tying the rules together -/

theorem Rules.place_nested (n : Nat) : (Rules.nested n).Place l := by
  induction n with
  | zero => exact ⟨fun _ => .fail, fun _ => .fail, fun _ => .fail⟩
  | succ n ih => exact ⟨.expression ih, .operand ih, .statement ih⟩

theorem Parse.PlacesStmt.anyStatement : PlacesStmt l anyStatement :=
  fun t _ _ _ hs hp => (Rules.place_nested _).statement t hs hp

theorem Parse.Brings.program {t : Token} :
    Brings (l.Starts t) program (fun p => (∀ s ∈ p.body, s.IsNested l) ∧
      (outermostAll p.body).Pairwise fun s t => s.stop ≤ t.start) fun _ _ => True := by
  refine .bind (.itemsWhile_first PlacesStmt.anyStatement) fun body hbody =>
    .pure ⟨hbody.1, ?_⟩ fun _ _ => trivial
  rw [outermostAll_eq]
  exact hbody.2

/-- **The spans of a program nest.** In a program that was parsed, every expression, tag and
decorator has the span of at least one character of the source, starts with a token and has the line
and column of that token. Its span holds those of its parts, which lie in it one behind the other from
left to right. The same order holds of the outermost expressions, tags and decorators of every
statement and of the program. -/
theorem parse_spans_nested {source : String} {p : Program} (h : parse source = .ok p) :
    ∃ tokens, tokenize source = .ok tokens ∧
      p.every (fun e => decide (e.IsPlaced tokens source.length))
        (fun s => decide (s.IsPlaced tokens source.length)) = true ∧
      (outermostAll p.body).Pairwise fun s t => s.stop ≤ t.start := by
  unfold parse at h
  split at h
  · cases h
  · next tokens htokens =>
    split at h
    · next s' hprogram =>
      cases h
      let l : Lexing := ⟨source.toList, tokens, lexed_of_tokenize htokens⟩
      obtain ⟨⟨hbody, hordered⟩, -⟩ := Parse.Brings.program (l := l) ⟨.ofTokens l, rfl⟩ hprogram
      exact ⟨tokens, htokens, everyStmt_iff.mpr hbody, hordered⟩
    · cases h

/-- Parentheses, chains, `new`, a shorthand property, operators on both sides, tags and a decorator,
some of them in an arrow function. -/
def nestedText : String :=
  "@on(x => \x7b\n  <p title=\x7ba.b[c]\x7d k>\n  return (\x7b k: 1, v \x7d)?.w\n  </p>\n\x7d, " ++
    "new (u).b(-i++));\nlet q = (f(1)(2)) + 3 * g, r = s = y ? !y : [z]\n<br/>"

theorem spans_nestedText : ∃ p tokens, parse nestedText = .ok p ∧ tokenize nestedText = .ok tokens ∧
    p.count (fun _ => true) (fun s => !s.markup.isEmpty) = 39 ∧
    p.every (fun e => decide (e.IsPlaced tokens nestedText.length))
      (fun s => decide (s.IsPlaced tokens nestedText.length)) = true ∧
    (outermostAll p.body).Pairwise fun s t => s.stop ≤ t.start := by
  have hcount : (parse nestedText).toOption.any
      (·.count (fun _ => true) (fun s => !s.markup.isEmpty) == 39) = true := by decide +kernel
  cases h : parse nestedText with
  | error e =>
    rw [h] at hcount
    cases hcount
  | ok p =>
    rw [h] at hcount
    obtain ⟨tokens, htokens, hplaced⟩ := parse_spans_nested h
    exact ⟨p, tokens, rfl, htokens, beq_iff_eq.mp hcount, hplaced⟩

end MarkupScript
