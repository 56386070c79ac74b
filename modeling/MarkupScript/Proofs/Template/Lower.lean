import MarkupScript.Proofs.Tree.Walk
import MarkupScript.Template.Lower

/-!
# How templates are lowered

Lowering goes through a program in the order of a walk as well. `Stmt.lower_node` says this of one
statement that is no function: its arrow blocks are lowered first, then the statements nested in it,
and then it is replaced itself if it is a piece of markup. A function goes through its body with
markup of its own.

Again the depth that bounds the recursion into arrow blocks does not show.
-/

namespace MarkupScript

/-- Whether a statement is a piece of markup: a tag, or a literal that is a statement. -/
def Stmt.isMarkup : Stmt → Bool
  | .elementStart _ _ _ | .elementEnd _ _ | .element _ _ _ => true
  | .expression value => value.isLiteral
  | _ => false

namespace Lower

section

variable (options : Options) (used : List Instruction) (t : Template)

theorem leaf_elementStart (name : String) (attributes : List Attribute) (span : Span) :
    leaf options (.elementStart name attributes span) ⟨used, some t⟩ =
      .ok (options.instructionCall .elementStart t.nextIndex
          (elementArguments name attributes span) span,
        ⟨.elementStart :: used,
          some ⟨t.function, t.nextIndex + 1, t.nextIndex :: t.openElements⟩⟩) := rfl

theorem leaf_element (name : String) (attributes : List Attribute) (span : Span) :
    leaf options (.element name attributes span) ⟨used, some t⟩ =
      .ok (options.instructionCall .element t.nextIndex
          (elementArguments name attributes span) span,
        ⟨.element :: used, some ⟨t.function, t.nextIndex + 1, t.openElements⟩⟩) := rfl

theorem leaf_elementEnd (name : String) (span : Span) :
    leaf options (.elementEnd name span) ⟨used, some t⟩ =
      match t.openElements with
      | [] => .error ⟨name, span.line, span.column, t.function⟩
      | index :: outer =>
        .ok (options.instructionCall .elementEnd index [] span,
          ⟨.elementEnd :: used, some ⟨t.function, t.nextIndex, outer⟩⟩) := by
  obtain ⟨function, nextIndex, openElements⟩ := t
  cases openElements <;> rfl

theorem leaf_literal {value : Expr} (h : value.isLiteral = true) :
    leaf options (.expression value) ⟨used, some t⟩ =
      .ok (options.instructionCall .text t.nextIndex [value] value.span,
        ⟨.text :: used, some ⟨t.function, t.nextIndex + 1, t.openElements⟩⟩) := by
  cases value <;> first | rfl | cases h

/-- What is no markup stays. -/
theorem leaf_of_not_markup {s : Stmt} (h : s.isMarkup = false) : leaf options s = return s := by
  funext st
  obtain ⟨used, none | t⟩ := st
  · rfl
  · cases s with
    | expression value => cases value <;> first | rfl | cases h
    | elementStart | elementEnd | element => cases h
    | _ => rfl

end

end Lower

/-! ### One statement at a time -/

section

variable (inner : List Stmt → Lower (List Stmt)) (options : Options)

theorem lowerAll_eq (ss : List Stmt) :
    lowerAll inner options ss = ss.mapM (Stmt.lower inner options) := by
  induction ss with
  | nil => simp [lowerAll]
  | cons s ss ih => simp [lowerAll, ih]

theorem lower?_eq (s : Option Stmt) :
    lower? inner options s = (fun ts => s.map fun _ => Stmt.withNested.alone (ts.map some)) <$>
      s.toList.mapM (Stmt.lower inner options) := by
  cases s with
  | none => simp [lower?]
  | some s => simp [lower?, Stmt.withNested.alone]

theorem Stmt.lower_function (name : String) (params : List String) (body : List Stmt)
    (own : Option Decorator) : Stmt.lower inner options (.function name params body own) = (do
      let body ← Lower.within (own.map fun _ => ⟨name, 0, []⟩) (body.mapM (lower inner options))
      return .function name (own.elim params fun _ => options.renderContext :: params) body
        none) := by
  cases own <;> simp [lower, lowerAll_eq]

/-- A statement is treated in this order: its arrow blocks, the statements nested in it, itself. -/
theorem Stmt.lower_node {s : Stmt} (h : s.isFunction = false) : s.lower inner options = (do
    let bs ← s.arrowBlocks.mapM inner
    let ts ← s.nested.mapM (lower inner options)
    Lower.leaf options ((s.fill bs).withNested (ts.map some))) := by
  have hleaf {t : Stmt} (ht : t.isMarkup = false) := Lower.leaf_of_not_markup options ht
  cases s with
  | function => cases h
  | block body =>
    simp [lower, arrowBlocks, fill, nested, withNested, lowerAll_eq, @hleaf (.block _) rfl]
  | export_ declared =>
    simp [lower, arrowBlocks, fill, nested, withNested, withNested.alone, @hleaf (.export_ _) rfl]
  | if_ test consequent alternate =>
    cases alternate <;>
      simp [lower, arrowBlocks, fill, nested, withNested, lower?_eq, withNested.alone,
        Expr.mapArrowBlocks_eq, @hleaf (.if_ _ _ _) rfl]
  | while_ test body =>
    simp [lower, arrowBlocks, fill, nested, withNested, withNested.alone, Expr.mapArrowBlocks_eq,
      @hleaf (.while_ _ _) rfl]
  | for_ init test update body =>
    have hhead : lower inner options (.for_ init test update body) = (do
        let s ← mapArrowBlocks inner (.for_ init test update body)
        let t ← body.lower inner options
        return s.withNested [some t]) := by
      simp [lower, mapArrowBlocks, withNested, withNested.alone]
    simp [hhead, mapArrowBlocks_eq, fill, nested, withNested, withNested.alone,
      @hleaf (.for_ _ _ _ _) rfl]
  | decorator d =>
    cases d
    simp [lower, mapArrowBlocks_eq, fill, nested, withNested]
  | _ => simp [lower, mapArrowBlocks_eq, fill, nested, withNested]

end

/-! ### The depth is enough -/

section

variable {options : Options} {inner inner' : List Stmt → Lower (List Stmt)}

/-- What lowering does depends on arrow blocks that lie less deep only. -/
theorem Stmt.lower_congr {n : Nat} (h : ∀ b, stmtsArrowDepth b < n → inner b = inner' b) (s : Stmt)
    (hs : s.arrowDepth ≤ n) : s.lower inner options = s.lower inner' options := by
  induction s using Stmt.induction with
  | step s _ ih =>
    have hnested : s.nested.mapM (lower inner options) = s.nested.mapM (lower inner' options) :=
      mapM_congr fun t ht => ih t ht (Nat.le_trans (arrowDepth_le_of_mem_nested ht) hs)
    cases hf : s.isFunction with
    | true =>
      cases s with
      | function name params body own =>
        rw [lower_function, lower_function]
        exact congrArg (fun x => Lower.within _ x >>= _) hnested
      | _ => cases hf
    | false =>
      have hblocks : s.arrowBlocks.mapM inner = s.arrowBlocks.mapM inner' :=
        mapM_congr fun b hb => h b (Nat.lt_of_lt_of_le (s.block_lt b hb).1 hs)
      rw [lower_node inner options hf, lower_node inner' options hf, hblocks, hnested]

theorem lowerAll_congr {body : List Stmt}
    (h : ∀ b, stmtsArrowDepth b < stmtsArrowDepth body → inner b = inner' b) :
    lowerAll inner options body = lowerAll inner' options body := by
  rw [lowerAll_eq, lowerAll_eq, mapM_congr fun s hs => ?_]
  exact s.lower_congr h (stmtsArrowDepth_le.mp (Nat.le_refl _) s hs)

end

/-- Lowers statements that belong to no template function, however deep their arrow blocks lie. -/
def lowerDeep (options : Options) (body : List Stmt) : Lower (List Stmt) :=
  lowerBody options (stmtsArrowDepth body + 1) body

/-- Arrow blocks are treated like the statements around them, but outside of any template
function. -/
theorem lowerDeep_eq (options : Options) (body : List Stmt) : lowerDeep options body =
    Lower.within none (body.mapM (Stmt.lower (lowerDeep options) options)) := by
  rw [← lowerAll_eq]
  exact run_depth_eq (F := fun g b => Lower.within none (lowerAll g options b)) (fun _ _ => rfl)
    (fun _ _ _ h => congrArg _ (lowerAll_congr h)) body

/-! ### Runs that succeed -/

namespace Lower

theorem bind_eq_ok {x : Lower α} {k : α → Lower β} {st st' : Lowering} {b : β} :
    (x >>= k) st = .ok (b, st') ↔ ∃ a st₁, x st = .ok (a, st₁) ∧ k a st₁ = .ok (b, st') := by
  cases hx : x st with
  | error e => simp [bind, StateT.bind, hx, Except.bind]
  | ok r => obtain ⟨a, st₁⟩ := r; simp [bind, StateT.bind, hx, Except.bind]

theorem pure_eq_ok {a b : α} {st st' : Lowering} :
    (pure a : Lower α) st = .ok (b, st') ↔ a = b ∧ st = st' := by
  show Except.ok (a, st) = Except.ok (b, st') ↔ _
  rw [Except.ok.injEq, Prod.mk.injEq]

/-- Behind a part that belongs elsewhere, the template function is what it was. -/
theorem within_eq_ok {template : Option Template} {x : Lower α} {st st' : Lowering} {a : α} :
    within template x st = .ok (a, st') ↔
      ∃ st₁, x { st with template } = .ok (a, st₁) ∧
        st' = { st₁ with template := st.template } := by
  have hwithin : within template x st = (x >>= fun a => do
      modify fun s => { s with template := st.template }
      return a) { st with template } := rfl
  rw [hwithin, bind_eq_ok]
  constructor
  · rintro ⟨a, st₁, hx, h⟩
    cases h
    exact ⟨st₁, hx, rfl⟩
  · rintro ⟨st₁, hx, rfl⟩
    exact ⟨a, st₁, hx, rfl⟩

theorem mapM_nil_eq_ok {f : α → Lower β} {st st' : Lowering} {bs : List β} :
    ([] : List α).mapM f st = .ok (bs, st') ↔ bs = [] ∧ st' = st := by
  rw [List.mapM_nil, pure_eq_ok, eq_comm, eq_comm (a := st)]

theorem mapM_cons_eq_ok {f : α → Lower β} {a : α} {as : List α} {st st' : Lowering} {bs : List β} :
    (a :: as).mapM f st = .ok (bs, st') ↔ ∃ b st₁ bs', f a st = .ok (b, st₁) ∧
      as.mapM f st₁ = .ok (bs', st') ∧ bs = b :: bs' := by
  simp only [List.mapM_cons, bind_eq_ok, pure_eq_ok]
  constructor
  · rintro ⟨b, st₁, hb, bs', st₂, hbs, rfl, rfl⟩
    exact ⟨b, st₁, bs', hb, hbs, rfl⟩
  · rintro ⟨b, st₁, bs', hb, hbs, rfl⟩
    exact ⟨b, st₁, hb, bs', st', hbs, rfl, rfl⟩

/-- What relates items to their results relates the lists. -/
theorem forall₂_of_mapM {f : α → Lower β} {R : α → β → Prop} {as : List α} {bs : List β}
    {st st' : Lowering} (h : ∀ a ∈ as, ∀ st b st', f a st = .ok (b, st') → R a b)
    (hm : as.mapM f st = .ok (bs, st')) : List.Forall₂ R as bs := by
  induction as generalizing st bs with
  | nil =>
    obtain ⟨rfl, -⟩ := mapM_nil_eq_ok.mp hm
    exact .nil
  | cons a as ih =>
    obtain ⟨b, st₁, bs', hb, hbs, rfl⟩ := mapM_cons_eq_ok.mp hm
    refine .cons (h a List.mem_cons_self st b st₁ hb) (ih (fun a' ha' => ?_) hbs)
    exact h a' (List.mem_cons_of_mem a ha')

theorem length_of_mapM {f : α → Lower β} {as : List α} {bs : List β} {st st' : Lowering}
    (hm : as.mapM f st = .ok (bs, st')) : bs.length = as.length :=
  (forall₂_of_mapM (R := fun _ _ => True) (fun _ _ _ _ _ _ => trivial) hm).length_eq.symm

end Lower

/-- How a statement that is no function is lowered. -/
theorem Stmt.lower_eq_ok {inner : List Stmt → Lower (List Stmt)} {options : Options} {s s' : Stmt}
    {st st' : Lowering} (h : s.isFunction = false) : s.lower inner options st = .ok (s', st') ↔
      ∃ bs st₁ ts st₂, s.arrowBlocks.mapM inner st = .ok (bs, st₁) ∧
        s.nested.mapM (lower inner options) st₁ = .ok (ts, st₂) ∧
        Lower.leaf options ((s.fill bs).withNested (ts.map some)) st₂ = .ok (s', st') := by
  simp only [lower_node inner options h, Lower.bind_eq_ok]
  constructor
  · rintro ⟨bs, st₁, hbs, ts, st₂, hts, hleaf⟩
    exact ⟨bs, st₁, ts, st₂, hbs, hts, hleaf⟩
  · rintro ⟨bs, st₁, ts, st₂, hbs, hts, hleaf⟩
    exact ⟨bs, st₁, hbs, ts, st₂, hts, hleaf⟩

/-- How a function is lowered. -/
theorem Stmt.lower_function_eq_ok {inner : List Stmt → Lower (List Stmt)} {options : Options}
    {name : String} {params : List String} {body : List Stmt} {own : Option Decorator} {s' : Stmt}
    {st st' : Lowering} :
    Stmt.lower inner options (.function name params body own) st = .ok (s', st') ↔
      ∃ body' st₁, body.mapM (lower inner options)
          { st with template := own.map fun _ => ⟨name, 0, []⟩ } = .ok (body', st₁) ∧
        s' = .function name (own.elim params fun _ => options.renderContext :: params) body' none ∧
        st' = { st₁ with template := st.template } := by
  simp only [lower_function, Lower.bind_eq_ok, Lower.within_eq_ok, Lower.pure_eq_ok]
  constructor
  · rintro ⟨body', -, ⟨st₁, hbody, rfl⟩, rfl, rfl⟩
    exact ⟨body', st₁, hbody, rfl, rfl⟩
  · rintro ⟨body', st₁, hbody, rfl, rfl⟩
    exact ⟨body', _, ⟨st₁, hbody, rfl⟩, rfl, rfl⟩

/-- How an arrow block is lowered. -/
theorem lowerDeep_eq_ok {options : Options} {body body' : List Stmt} {st st' : Lowering} :
    lowerDeep options body st = .ok (body', st') ↔
      ∃ st₁, body.mapM (Stmt.lower (lowerDeep options) options) { st with template := none } =
          .ok (body', st₁) ∧ st' = { st₁ with template := st.template } := by
  rw [lowerDeep_eq, Lower.within_eq_ok]

/-- How a program is lowered: like an arrow block, with the instructions it uses imported. -/
theorem Program.lowerTemplates_eq_ok {p q : Program} {options : Options} :
    p.lowerTemplates options = .ok q ↔ ∃ body st,
      lowerDeep options p.body ⟨[], none⟩ = .ok (body, st) ∧
      q = ⟨options.instructionImport st.used ++ body⟩ := by
  have hlower : p.lowerTemplates options = (lowerDeep options p.body ⟨[], none⟩).map
      fun r => ⟨options.instructionImport r.2.used ++ r.1⟩ := rfl
  rw [hlower]
  cases lowerDeep options p.body ⟨[], none⟩ with
  | error e => simp [Except.map]
  | ok r =>
    obtain ⟨body, st⟩ := r
    simp [Except.map, eq_comm]

end MarkupScript
