import Mathlib.Data.List.Forall2
import MarkupScript.Proofs.Tree.Depth
import MarkupScript.Proofs.Tree.Fill

/-!
# Statements in document order

A walk through a program comes by its statements in document order: first the arrow blocks of a
statement's own expressions, then the statement itself, then the statements nested in it. What a
loop starts with is no statement of the walk, only the arrow blocks in it are entered.

The arguments of a decorator are entered by some walks and left alone by others.
-/

namespace MarkupScript

theorem exists_of_forall₂ {R : α → β → Prop} {as : List α} {bs : List β} {b : β}
    (h : List.Forall₂ R as bs) (hb : b ∈ bs) : ∃ a ∈ as, R a b := by
  induction h with
  | nil => cases hb
  | @cons a b' as bs hab _ ih =>
    rcases List.mem_cons.mp hb with rfl | hb
    · exact ⟨a, List.mem_cons_self, hab⟩
    · obtain ⟨a', ha', hab'⟩ := ih hb
      exact ⟨a', List.mem_cons_of_mem a ha', hab'⟩

namespace Stmt

/-- The statements that lie directly in a statement. -/
def nested : Stmt → List Stmt
  | .function _ _ body _ => body
  | .block body => body
  | .if_ _ consequent alternate => consequent :: alternate.toList
  | .while_ _ body => [body]
  | .for_ _ _ _ body => [body]
  | .export_ declared => [declared]
  | _ => []

/-- Whether a statement is a decorator. -/
def isDecorator : Stmt → Bool
  | .decorator _ => true
  | _ => false

/-- Whether a statement is a function. -/
def isFunction : Stmt → Bool
  | .function _ _ _ _ => true
  | _ => false

theorem sizeOf_lt_of_mem_nested {s t : Stmt} (h : t ∈ s.nested) : sizeOf t < sizeOf s := by
  cases s with
  | function name params body decorator =>
    have := List.sizeOf_lt_of_mem (show t ∈ body from h)
    simp only [function.sizeOf_spec]
    omega
  | block body =>
    have := List.sizeOf_lt_of_mem (show t ∈ body from h)
    simp only [block.sizeOf_spec]
    omega
  | if_ test consequent alternate =>
    cases alternate with
    | none =>
      obtain rfl := List.mem_singleton.mp h
      simp only [if_.sizeOf_spec]
      omega
    | some alternate =>
      simp only [nested, Option.toList_some, List.mem_cons, List.not_mem_nil, or_false] at h
      rcases h with rfl | rfl <;> simp only [if_.sizeOf_spec, Option.some.sizeOf_spec] <;> omega
  | while_ test body =>
    obtain rfl := List.mem_singleton.mp h
    simp only [while_.sizeOf_spec]
    omega
  | for_ init test update body =>
    obtain rfl := List.mem_singleton.mp h
    simp only [for_.sizeOf_spec]
    omega
  | export_ declared =>
    obtain rfl := List.mem_singleton.mp h
    simp only [export_.sizeOf_spec]
    omega
  | _ => cases h

theorem sizeOf_lt_of_mem_block {s t : Stmt} {b : List Stmt} (hb : b ∈ s.arrowBlocks)
    (ht : t ∈ b) : sizeOf t < sizeOf s :=
  Nat.lt_trans (List.sizeOf_lt_of_mem ht) (s.block_lt b hb).2

/-! ### Walks -/

/-- The arrow blocks that a walk enters at a statement. -/
def entered (intoDecorators : Bool) (s : Stmt) : List (List Stmt) :=
  if s.isDecorator && !intoDecorators then [] else s.arrowBlocks

theorem mem_arrowBlocks_of_entered {intoDecorators : Bool} {s : Stmt} {b : List Stmt}
    (h : b ∈ s.entered intoDecorators) : b ∈ s.arrowBlocks := by
  unfold entered at h
  split at h
  · cases h
  · exact h

/-- All statements that a walk comes by, in document order. -/
def walk (intoDecorators : Bool) (s : Stmt) : List Stmt :=
  ((s.entered intoDecorators).attach.flatMap fun ⟨b, _⟩ =>
    b.attach.flatMap fun ⟨t, _⟩ => t.walk intoDecorators) ++
  s :: s.nested.attach.flatMap fun ⟨t, _⟩ => t.walk intoDecorators
termination_by sizeOf s
decreasing_by
  · exact sizeOf_lt_of_mem_block (mem_arrowBlocks_of_entered ‹b ∈ _›) ‹t ∈ b›
  · exact sizeOf_lt_of_mem_nested ‹t ∈ _›

end Stmt

/-- All statements of a list that a walk comes by. -/
def walkAll (intoDecorators : Bool) (ss : List Stmt) : List Stmt :=
  ss.flatMap (Stmt.walk intoDecorators)

theorem Stmt.walk_eq (intoDecorators : Bool) (s : Stmt) :
    s.walk intoDecorators = (s.entered intoDecorators).flatMap (walkAll intoDecorators) ++
      s :: walkAll intoDecorators s.nested := by
  unfold walkAll
  rw [walk]
  simp

@[simp] theorem walkAll_nil (intoDecorators : Bool) : walkAll intoDecorators [] = [] := rfl

@[simp] theorem walkAll_cons (intoDecorators : Bool) (s : Stmt) (ss : List Stmt) :
    walkAll intoDecorators (s :: ss) = s.walk intoDecorators ++ walkAll intoDecorators ss := rfl

/-- Induction over statements: what holds of the statements in its arrow blocks and of those nested
in it holds of a statement. -/
theorem Stmt.induction {Q : Stmt → Prop}
    (step : ∀ s : Stmt, (∀ b ∈ s.arrowBlocks, ∀ t ∈ b, Q t) → (∀ t ∈ s.nested, Q t) → Q s)
    (s : Stmt) : Q s :=
  step s (fun _ _ t _ => induction step t) (fun t _ => induction step t)
termination_by sizeOf s
decreasing_by
  · exact sizeOf_lt_of_mem_block ‹_ ∈ s.arrowBlocks› ‹_›
  · exact sizeOf_lt_of_mem_nested ‹_›

/-- Statements that are nested lie at most as deep. -/
theorem Stmt.arrowDepth_le_of_mem_nested {s t : Stmt} (h : t ∈ s.nested) :
    t.arrowDepth ≤ s.arrowDepth := by
  cases s with
  | function name params body d =>
    have := stmtsArrowDepth_le.mp (Nat.le_refl _) t (show t ∈ body from h)
    simp only [arrowDepth]
    omega
  | block body => exact stmtsArrowDepth_le.mp (Nat.le_refl _) t h
  | if_ test consequent alternate =>
    simp only [arrowDepth]
    rcases List.mem_cons.mp h with rfl | h
    · omega
    · obtain rfl := Option.mem_toList.mp h
      simp only [stmtArrowDepth?]
      omega
  | while_ test body =>
    obtain rfl := List.mem_singleton.mp h
    simp only [arrowDepth]
    omega
  | for_ init test update body =>
    obtain rfl := List.mem_singleton.mp h
    simp only [arrowDepth]
    omega
  | export_ declared =>
    obtain rfl := List.mem_singleton.mp h
    exact Nat.le_refl _
  | _ => cases h

/-! ### Changing statements along a walk -/

/-- A statement with others nested in it, of which there are as many. One that is missing vanishes
from its list, or is an empty statement where it stands alone. -/
def Stmt.withNested : Stmt → List (Option Stmt) → Stmt
  | .function name params _ d, ts => .function name params (ts.filterMap id) d
  | .block _, ts => .block (ts.filterMap id)
  | .export_ _, ts => .export_ (alone ts)
  | .if_ test _ alternate, ts => .if_ test (alone ts) (alternate.map fun _ => alone ts.tail)
  | .while_ test _, ts => .while_ test (alone ts)
  | .for_ init test update _, ts => .for_ init test update (alone ts)
  | s, _ => s
where
  /-- The first statement of a list, where it stands alone. -/
  alone (ts : List (Option Stmt)) : Stmt := ts.head?.join.getD .empty

namespace Stmt

@[simp] theorem nested_fill (s : Stmt) (bs : List (List Stmt)) : (s.fill bs).nested = s.nested := by
  cases s with
  | decorator d =>
    cases d
    rfl
  | _ => rfl

@[simp] theorem isDecorator_fill (s : Stmt) (bs : List (List Stmt)) :
    (s.fill bs).isDecorator = s.isDecorator := by
  cases s with
  | decorator d =>
    cases d
    rfl
  | _ => rfl

@[simp] theorem isFunction_fill (s : Stmt) (bs : List (List Stmt)) :
    (s.fill bs).isFunction = s.isFunction := by
  cases s with
  | decorator d =>
    cases d
    rfl
  | _ => rfl

@[simp] theorem isFunction_withNested (s : Stmt) (ts : List (Option Stmt)) :
    (s.withNested ts).isFunction = s.isFunction := by
  cases s <;> rfl

@[simp] theorem isDecorator_withNested (s : Stmt) (ts : List (Option Stmt)) :
    (s.withNested ts).isDecorator = s.isDecorator := by
  cases s <;> rfl

@[simp] theorem arrowBlocks_withNested (s : Stmt) (ts : List (Option Stmt)) :
    (s.withNested ts).arrowBlocks = s.arrowBlocks := by
  cases s <;> rfl

theorem fill_withNested (s : Stmt) (bs : List (List Stmt)) (ts : List (Option Stmt)) :
    (s.withNested ts).fill bs = (s.fill bs).withNested ts := by
  cases s with
  | decorator d =>
    cases d
    rfl
  | _ => rfl

@[simp] theorem withNested_withNested (s : Stmt) (ts us : List (Option Stmt)) :
    (s.withNested ts).withNested us = s.withNested us := by
  cases s with
  | if_ test consequent alternate => cases alternate <;> rfl
  | _ => rfl

/-- Whether the statements nested in a statement form a list, and do not stand alone. -/
def holdsList : Stmt → Bool
  | .function _ _ _ _ | .block _ => true
  | _ => false

theorem nested_withNested {s : Stmt} {ts : List (Option Stmt)} (h : ts.length = s.nested.length) :
    (s.withNested ts).nested =
      if s.holdsList then ts.filterMap id else ts.map (·.getD .empty) := by
  cases s with
  | function | block => rfl
  | if_ test consequent alternate =>
    cases alternate with
    | none =>
      obtain ⟨t, rfl⟩ := List.length_eq_one_iff.mp h
      rfl
    | some alternate =>
      obtain ⟨t, u, rfl⟩ := List.length_eq_two.mp h
      rfl
  | export_ | while_ | for_ =>
    obtain ⟨t, rfl⟩ := List.length_eq_one_iff.mp h
    rfl
  | _ =>
    obtain rfl := List.eq_nil_of_length_eq_zero h
    rfl

theorem nested_withNested_some {s : Stmt} {ts : List Stmt} (h : ts.length = s.nested.length) :
    (s.withNested (ts.map some)).nested = ts := by
  rw [nested_withNested (by simpa using h)]
  split
  · rw [List.filterMap_map]
    exact List.filterMap_some
  · rw [List.map_map]
    exact List.map_id ts

/-- A statement with its own statements nested in it is the same. -/
theorem withNested_self (s : Stmt) : s.withNested (s.nested.map some) = s := by
  cases s with
  | function | block => simp [withNested, nested, List.filterMap_map]
  | if_ test consequent alternate => cases alternate <;> rfl
  | _ => rfl

/-- Nesting statements comes down to nesting what `nested` gives back. -/
theorem withNested_map_nested {s : Stmt} {ts : List (Option Stmt)} {f : Stmt → Option Stmt}
    (h : ts.length = s.nested.length) (hf : (f .empty).getD .empty = .empty) :
    s.withNested ((s.withNested ts).nested.map f) = s.withNested (ts.map (·.bind f)) := by
  cases s with
  | function | block =>
    simp only [withNested, nested, List.filterMap_map, Function.id_comp, List.filterMap_filterMap]
    congr
  | if_ test consequent alternate =>
    cases alternate with
    | none =>
      obtain ⟨t, rfl⟩ := List.length_eq_one_iff.mp h
      cases t <;> simp [withNested, nested, withNested.alone, hf]
    | some alternate =>
      obtain ⟨t, u, rfl⟩ := List.length_eq_two.mp h
      cases t <;> cases u <;> simp [withNested, nested, withNested.alone, hf]
  | export_ | while_ | for_ =>
    obtain ⟨t, rfl⟩ := List.length_eq_one_iff.mp h
    cases t <;> simp [withNested, nested, withNested.alone, hf]
  | _ => rfl

end Stmt

/-- Changes or removes every statement that a walk comes by, those in a statement before the
statement itself. -/
def Stmt.rewrite (f : Stmt → Option Stmt) (s : Stmt) : Option Stmt :=
  let blocks := s.arrowBlocks.attach.map fun ⟨b, _⟩ =>
    b.attach.filterMap fun ⟨t, _⟩ => t.rewrite f
  f ((s.fill blocks).withNested (s.nested.attach.map fun ⟨t, _⟩ => t.rewrite f))
termination_by sizeOf s
decreasing_by
  · exact sizeOf_lt_of_mem_block ‹b ∈ _› ‹t ∈ b›
  · exact sizeOf_lt_of_mem_nested ‹t ∈ _›

/-- Changes or removes statements of a list. -/
def rewriteAll (f : Stmt → Option Stmt) (ss : List Stmt) : List Stmt :=
  ss.filterMap (Stmt.rewrite f)

/-- Changes or removes statements of a program. -/
def Program.rewrite (f : Stmt → Option Stmt) (p : Program) : Program := ⟨rewriteAll f p.body⟩

theorem Stmt.rewrite_eq (f : Stmt → Option Stmt) (s : Stmt) : s.rewrite f =
    f ((s.fill (s.arrowBlocks.map (rewriteAll f))).withNested (s.nested.map (rewrite f))) := by
  unfold rewriteAll
  rw [rewrite]
  simp

end MarkupScript
