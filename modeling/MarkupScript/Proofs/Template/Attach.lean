import MarkupScript.Proofs.Tree.Walk
import MarkupScript.Template.Attach

/-!
# How decorators are attached

Attaching goes through a program in the order of a walk. `Stmt.attachOne_node` says this of one
statement, whatever its kind: its arrow blocks are treated first, then it takes the decorator that
waits if it is a function, then the statements nested in it are treated.

The depth that bounds the recursion into arrow blocks does not show: `attachDeep` treats an arrow
block just like the statements around it.
-/

namespace MarkupScript

namespace Stmt

/-- A statement with a decorator, if it is a function and there is one. -/
def decorated (d : Option Decorator) : Stmt → Stmt
  | .function name params body own => .function name params body (d.or own)
  | s => s

section

variable (s : Stmt) (d : Option Decorator)

@[simp] theorem isDecorator_decorated : (s.decorated d).isDecorator = s.isDecorator := by
  cases s <;> rfl

@[simp] theorem arrowBlocks_decorated : (s.decorated d).arrowBlocks = s.arrowBlocks := by
  cases s <;> rfl

@[simp] theorem nested_decorated : (s.decorated d).nested = s.nested := by
  cases s <;> rfl

theorem fill_decorated (bs : List (List Stmt)) :
    (s.decorated d).fill bs = (s.fill bs).decorated d := by
  cases s with
  | decorator d =>
    cases d
    rfl
  | _ => rfl

theorem withNested_decorated (ts : List (Option Stmt)) :
    (s.decorated d).withNested ts = (s.withNested ts).decorated d := by
  cases s <;> rfl

theorem arrowBlocks_rebuilt {s : Stmt} {bs : List (List Stmt)} {ts : List (Option Stmt)}
    {d : Option Decorator} (h : bs.length = s.arrowBlocks.length) :
    (((s.fill bs).withNested ts).decorated d).arrowBlocks = bs := by
  rw [arrowBlocks_decorated, arrowBlocks_withNested, s.arrowBlocks_fill bs h]

end

end Stmt

/-! ### One statement at a time -/

section

variable (inner : List Stmt → Attach (List Stmt))

/-- The decorator that a statement takes. -/
def Stmt.takePending (s : Stmt) : Attach (Option Decorator) :=
  if s.isFunction then Attach.takePending else return none

/-- Attaches decorators in a statement, of which nothing is left if it is a decorator itself. -/
def Stmt.attachOne (s : Stmt) : Attach (Option Stmt) :=
  match s with
  | .decorator d => do
    modify (·.hold d)
    return none
  | s => some <$> s.attach inner

theorem Stmt.attachOne_eq {s : Stmt} (h : s.isDecorator = false) :
    s.attachOne inner = some <$> s.attach inner := by
  cases s <;> first | rfl | cases h

theorem Stmt.attach_eq (s : Stmt) : s.attach inner = (·.getD .empty) <$> s.attachOne inner := by
  cases s <;> simp [attachOne, attach]

theorem attachAll_eq (ss : List Stmt) :
    attachAll inner ss = (·.filterMap id) <$> ss.mapM (Stmt.attachOne inner) := by
  induction ss with
  | nil => simp [attachAll]
  | cons s ss ih =>
    cases s <;> simp [attachAll, Stmt.attachOne, ih]

theorem attach?_eq (s : Option Stmt) :
    attach? inner s = (fun ts => s.map fun _ => Stmt.withNested.alone ts) <$>
      s.toList.mapM (Stmt.attachOne inner) := by
  cases s with
  | none => simp [attach?]
  | some s => simp [attach?, Stmt.attach_eq, Stmt.withNested.alone]

/-- A statement is treated in this order: its arrow blocks, itself, the statements nested in it. -/
theorem Stmt.attachOne_node {s : Stmt} (h : s.isDecorator = false) : s.attachOne inner = (do
    let bs ← s.arrowBlocks.mapM inner
    let d ← s.takePending
    let ts ← s.nested.mapM (attachOne inner)
    return some (((s.fill bs).withNested ts).decorated d)) := by
  rw [attachOne_eq inner h]
  cases s with
  | decorator d => cases h
  | function name params body own =>
    simp [attach, takePending, isFunction, arrowBlocks, fill, nested, withNested, decorated,
      attachAll_eq]
  | block body =>
    simp [attach, takePending, isFunction, arrowBlocks, fill, nested, withNested, decorated,
      attachAll_eq]
  | export_ declared =>
    simp [attach, takePending, isFunction, arrowBlocks, fill, nested, withNested, decorated,
      attach_eq inner declared, withNested.alone]
  | if_ test consequent alternate =>
    cases alternate <;>
      simp [attach, takePending, isFunction, arrowBlocks, fill, nested, withNested, decorated,
        attach_eq inner consequent, attach?_eq, withNested.alone, Expr.mapArrowBlocks_eq]
  | while_ test body =>
    simp [attach, takePending, isFunction, arrowBlocks, fill, nested, withNested, decorated,
      attach_eq inner body, withNested.alone, Expr.mapArrowBlocks_eq]
  | for_ init test update body =>
    have hhead : attach inner (.for_ init test update body) = (do
        let s ← mapArrowBlocks inner (.for_ init test update body)
        let t ← body.attach inner
        return s.withNested [some t]) := by
      simp [attach, mapArrowBlocks, withNested, withNested.alone]
    simp [hhead, mapArrowBlocks_eq, takePending, isFunction, fill, nested, withNested, decorated,
      attach_eq inner body, withNested.alone]
  | _ =>
    simp [attach, mapArrowBlocks_eq, takePending, isFunction, fill, nested, withNested, decorated]

end

/-! ### What comes out -/

theorem Attach.forall₂_mapM {f : α → Attach β} {R : α → β → Prop} {as : List α}
    (h : ∀ a ∈ as, ∀ w, R a (f a w).1) (w : Waiting) : List.Forall₂ R as (as.mapM f w).1 := by
  induction as generalizing w with
  | nil => exact .nil
  | cons a as ih =>
    rw [List.mapM_cons]
    exact .cons (h a List.mem_cons_self w) (ih (fun a' ha' => h a' (List.mem_cons_of_mem a ha')) _)

/-- A statement is put together again from what comes out of its parts. -/
theorem Stmt.attachOne_result {inner : List Stmt → Attach (List Stmt)}
    {R : List Stmt → List Stmt → Prop} {Q : Stmt → Option Stmt → Prop} {s : Stmt}
    (hs : s.isDecorator = false) (hblocks : ∀ b ∈ s.arrowBlocks, ∀ w, R b (inner b w).1)
    (hnested : ∀ t ∈ s.nested, ∀ w, Q t (t.attachOne inner w).1) (w : Waiting) :
    ∃ bs ts d, List.Forall₂ R s.arrowBlocks bs ∧ List.Forall₂ Q s.nested ts ∧
      (s.attachOne inner w).1 = some (((s.fill bs).withNested ts).decorated d) := by
  rw [attachOne_node inner hs]
  exact ⟨_, _, _, Attach.forall₂_mapM hblocks w, Attach.forall₂_mapM hnested _, rfl⟩

/-! ### The depth is enough -/

/-- What attaching does depends on arrow blocks that lie less deep only. -/
theorem Stmt.attachOne_congr {inner inner' : List Stmt → Attach (List Stmt)} {n : Nat}
    (h : ∀ b, stmtsArrowDepth b < n → inner b = inner' b) (s : Stmt) (hs : s.arrowDepth ≤ n) :
    s.attachOne inner = s.attachOne inner' := by
  induction s using Stmt.induction with
  | step s _ ih =>
    cases hd : s.isDecorator with
    | true =>
      cases s with
      | decorator d => rfl
      | _ => cases hd
    | false =>
      have hblocks : s.arrowBlocks.mapM inner = s.arrowBlocks.mapM inner' :=
        mapM_congr fun b hb => h b (Nat.lt_of_lt_of_le (s.block_lt b hb).1 hs)
      have hnested : s.nested.mapM (attachOne inner) = s.nested.mapM (attachOne inner') :=
        mapM_congr fun t ht => ih t ht (Nat.le_trans (arrowDepth_le_of_mem_nested ht) hs)
      rw [attachOne_node inner hd, attachOne_node inner' hd, hblocks, hnested]

theorem attachAll_congr {inner inner' : List Stmt → Attach (List Stmt)} {body : List Stmt}
    (h : ∀ b, stmtsArrowDepth b < stmtsArrowDepth body → inner b = inner' b) :
    attachAll inner body = attachAll inner' body := by
  rw [attachAll_eq, attachAll_eq, mapM_congr fun s hs => ?_]
  exact s.attachOne_congr h (stmtsArrowDepth_le.mp (Nat.le_refl _) s hs)

/-- Attaches decorators in statements, however deep their arrow blocks lie. -/
def attachDeep (body : List Stmt) : Attach (List Stmt) := attachBody (stmtsArrowDepth body + 1) body

/-- Arrow blocks are treated like the statements around them. -/
theorem attachDeep_eq (body : List Stmt) :
    attachDeep body = (·.filterMap id) <$> body.mapM (Stmt.attachOne attachDeep) := by
  rw [← attachAll_eq]
  exact run_depth_eq (fun _ _ => rfl) (fun _ _ _ => attachAll_congr) body

end MarkupScript
