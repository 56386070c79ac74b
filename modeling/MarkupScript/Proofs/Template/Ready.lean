import MarkupScript.Proofs.Template.Attach
import MarkupScript.Proofs.Tree.Reached

/-!
# Ready to be lowered

With its decorators attached, a parsed program is ready to be lowered: on a walk through it there is
no decorator left, and the end tags of every function find their elements open. Attaching does not
touch tags, so elements are open where they were.
-/

namespace MarkupScript

/-! ### Open elements along a walk -/

/-- Apart from tags, the elements of a statement are those of the statements nested in it. -/
theorem Stmt.elementsAfter_eq {s : Stmt} (hf : s.isFunction = false) (ht : s.isStartOrEnd = false)
    (n : Nat) : s.elementsAfter n = elementsAfterAll s.nested n := by
  cases s with
  | function | elementStart | elementEnd => contradiction
  | if_ test consequent alternate =>
    cases alternate <;> simp [elementsAfter, nested, elementsAfterAll, elementsAfter?]
  | _ => simp [elementsAfter, nested, elementsAfterAll]

/-- Statements that are missing, or are empty, do not count. -/
theorem elementsAfterAll_congr {ss : List Stmt} {ts : List (Option Stmt)}
    (h : List.Forall₂ (fun s o => ∀ n, elementsAfter? o n = s.elementsAfter n) ss ts) (n : Nat) :
    elementsAfterAll (ts.filterMap id) n = elementsAfterAll ss n ∧
      elementsAfterAll (ts.map (·.getD .empty)) n = elementsAfterAll ss n := by
  induction h generalizing n with
  | nil => exact ⟨rfl, rfl⟩
  | @cons s o ss ts hs _ ih =>
    cases o with
    | none =>
      have hs : s.elementsAfter n = some n := (hs n).symm
      simpa [elementsAfterAll, Stmt.elementsAfter, hs] using ih n
    | some t =>
      have ht : t.elementsAfter n = s.elementsAfter n := hs n
      simp only [List.filterMap_cons, id_eq, List.map_cons, Option.getD_some, elementsAfterAll, ht]
      cases s.elementsAfter n with
      | none => exact ⟨rfl, rfl⟩
      | some m => exact ih m

section

variable {s : Stmt} {bs : List (List Stmt)} {ts : List (Option Stmt)} {d : Option Decorator}

theorem elementsAfterAll_nested_rebuilt
    (h : List.Forall₂ (fun t o => ∀ n, elementsAfter? o n = t.elementsAfter n) s.nested ts)
    (n : Nat) : elementsAfterAll (((s.fill bs).withNested ts).decorated d).nested n =
      elementsAfterAll s.nested n := by
  rw [Stmt.nested_decorated, Stmt.nested_withNested (by rw [Stmt.nested_fill, h.length_eq])]
  split
  · exact (elementsAfterAll_congr h n).1
  · exact (elementsAfterAll_congr h n).2

end

/-- Attaching leaves the elements of a statement as they are. -/
theorem Stmt.attachOne_elementsAfter (inner : List Stmt → Attach (List Stmt)) (s : Stmt) :
    ∀ w n, elementsAfter? (s.attachOne inner w).1 n = s.elementsAfter n := by
  induction s using Stmt.induction with
  | step s _ ih =>
    intro w n
    cases hs : s.isDecorator with
    | true => cases s <;> first | rfl | cases hs
    | false =>
      obtain ⟨bs, ts, d, -, hts, hres⟩ := attachOne_result (R := fun _ _ => True)
        (Q := fun t o => ∀ n, elementsAfter? o n = t.elementsAfter n) hs (fun _ _ _ => trivial) ih w
      rw [hres]
      change (((s.fill bs).withNested ts).decorated d).elementsAfter n = s.elementsAfter n
      cases hf : s.isFunction with
      | true => cases s <;> first | rfl | cases hf
      | false =>
        cases ht : s.isStartOrEnd with
        | true => cases s <;> first | rfl | cases ht
        | false =>
          rw [elementsAfter_eq hf ht, ← elementsAfterAll_nested_rebuilt hts n, elementsAfter_eq]
          · cases s with
            | decorator => cases hs
            | function => cases hf
            | _ => rfl
          · cases s with
            | decorator => cases hs
            | elementStart | elementEnd => cases ht
            | _ => rfl

/-! ### No decorator is left -/

/-- Whether a loop, if the statement is one, starts with a declaration or an expression. -/
def Stmt.startsPlain : Stmt → Bool
  | .for_ init _ _ _ => init.all isForInit
  | _ => true

/-- What lowering can rely on: no decorator is a statement, a loop starts with a declaration or an
expression, and the end tags of a function find their elements open. -/
structure Stmt.Ready (s : Stmt) : Prop where
  noDecorator : s.isDecorator = false
  startsPlain : s.startsPlain = true
  paired : s.isFunction = true → Paired s.nested

theorem Stmt.ready_empty : Stmt.Ready .empty := ⟨rfl, rfl, nofun⟩

theorem Stmt.isForInit_fill (s : Stmt) (bs : List (List Stmt)) :
    (s.fill bs).isForInit = s.isForInit := by
  cases s with
  | decorator d =>
    cases d
    rfl
  | _ => rfl

@[simp] theorem Stmt.startsPlain_fill (s : Stmt) (bs : List (List Stmt)) :
    (s.fill bs).startsPlain = s.startsPlain := by
  cases s with
  | decorator d =>
    cases d
    rfl
  | for_ init test update body => cases init <;> simp [fill, startsPlain, stmtFill?, isForInit_fill]
  | _ => rfl

@[simp] theorem Stmt.startsPlain_withNested (s : Stmt) (ts : List (Option Stmt)) :
    (s.withNested ts).startsPlain = s.startsPlain := by
  cases s <;> rfl

@[simp] theorem Stmt.startsPlain_decorated (s : Stmt) (d : Option Decorator) :
    (s.decorated d).startsPlain = s.startsPlain := by
  cases s <;> rfl

section

variable {s : Stmt} {bs : List (List Stmt)} {ts : List (Option Stmt)} {d : Option Decorator}

theorem Stmt.ready_rebuilt (hs : s.isDecorator = false) (h : s.WellFormed)
    (hts : List.Forall₂ (fun t o => ∀ n, elementsAfter? o n = t.elementsAfter n) s.nested ts) :
    (((s.fill bs).withNested ts).decorated d).Ready where
  noDecorator := by simpa using hs
  startsPlain := by
    have hstart : s.startsPlain = true := by
      cases s with
      | for_ init test update body =>
        cases init with
        | none => rfl
        | some init => exact h.1 init rfl
      | _ => rfl
    simpa using hstart
  paired := by
    intro hf
    have hpaired : Paired s.nested := by
      cases s with
      | function => exact h.2.2.2.1
      | decorator => cases hs
      | _ => cases hf
    rwa [Paired, elementsAfterAll_nested_rebuilt hts]

end

/-! ### What comes out on a walk -/

section

variable {intoDecorators : Bool} {Q : Stmt → Prop}

theorem Stmt.walk_empty (intoDecorators : Bool) : Stmt.walk intoDecorators .empty = [.empty] := by
  rw [walk_eq]
  cases intoDecorators <;> rfl

/-- A walk through a statement that was put together again comes by the statement, its new arrow
blocks and the statements nested in it, of which one that is missing may be empty. -/
theorem Stmt.forall_walk_rebuilt {s : Stmt} {bs : List (List Stmt)} {ts : List (Option Stmt)}
    {d : Option Decorator} (hempty : Q .empty) (hbs : bs.length = s.arrowBlocks.length)
    (hts : ts.length = s.nested.length)
    (hblocks : ∀ b ∈ bs, ∀ t ∈ walkAll intoDecorators b, Q t)
    (hself : Q (((s.fill bs).withNested ts).decorated d))
    (hnested : ∀ o ∈ ts, ∀ t ∈ walkAll intoDecorators o.toList, Q t) :
    ∀ t ∈ (((s.fill bs).withNested ts).decorated d).walk intoDecorators, Q t := by
  intro t ht
  rcases mem_walk.mp ht with ⟨b, hb, ht⟩ | rfl | ht
  · have hb := mem_arrowBlocks_of_entered hb
    rw [arrowBlocks_rebuilt hbs] at hb
    exact hblocks b hb t ht
  · exact hself
  · rw [nested_decorated, nested_withNested (by rw [nested_fill, hts])] at ht
    split at ht
    · obtain ⟨u, hu, ht⟩ := mem_walkAll.mp ht
      obtain ⟨o, ho, rfl⟩ := List.mem_filterMap.mp hu
      exact hnested _ ho t (by simpa using ht)
    · obtain ⟨u, hu, ht⟩ := mem_walkAll.mp ht
      obtain ⟨o, ho, rfl⟩ := List.mem_map.mp hu
      cases o with
      | none =>
        obtain rfl : t = .empty := by simpa [walk_empty] using ht
        exact hempty
      | some u => exact hnested _ ho t (by simpa using ht)

theorem forall_walk_attachDeep {body : List Stmt}
    (h : ∀ s ∈ body, ∀ w, ∀ t ∈ walkAll intoDecorators (s.attachOne attachDeep w).1.toList, Q t)
    (w : Waiting) : ∀ t ∈ walkAll intoDecorators (attachDeep body w).1, Q t := by
  have hall := Attach.forall₂_mapM
    (R := fun _ (o : Option Stmt) => ∀ t ∈ walkAll intoDecorators o.toList, Q t) h w
  rw [attachDeep_eq]
  intro t ht
  obtain ⟨u, hu, ht⟩ := mem_walkAll.mp ht
  obtain ⟨o, ho, rfl⟩ := List.mem_filterMap.mp hu
  obtain ⟨s, -, hq⟩ := exists_of_forall₂ hall ho
  exact hq t (by simpa using ht)

/-- If `Q` holds of every statement that is put together again, it holds of all that comes out, all
the way through. What the statements that go in have to meet is left open. -/
theorem Stmt.forall_walk_attachOne {W : Stmt → Prop} (hempty : Q .empty)
    (hblocks : ∀ s, W s → ∀ b ∈ s.arrowBlocks, ∀ t ∈ b, W t)
    (hnested : ∀ s, W s → ∀ t ∈ s.nested, W t)
    (hnode : ∀ s bs ts d, W s → s.isDecorator = false →
      List.Forall₂ (fun t o => ∀ n, elementsAfter? o n = t.elementsAfter n) s.nested ts →
      Q (((s.fill bs).withNested ts).decorated d)) (s : Stmt) (h : W s) :
    ∀ w, ∀ t ∈ walkAll intoDecorators (s.attachOne attachDeep w).1.toList, Q t := by
  induction s using Stmt.induction with
  | step s ihBlocks ihNested =>
    intro w t ht
    cases hs : s.isDecorator with
    | true =>
      cases s with
      | decorator d => cases ht
      | _ => cases hs
    | false =>
      obtain ⟨bs, ts, d, hbs, hts, hres⟩ := attachOne_result
        (R := fun _ b => ∀ t ∈ walkAll intoDecorators b, Q t)
        (Q := fun t o => (∀ n, elementsAfter? o n = t.elementsAfter n) ∧
          ∀ u ∈ walkAll intoDecorators o.toList, Q u) hs
        (fun b hb => forall_walk_attachDeep fun t ht => ihBlocks b hb t ht (hblocks s h b hb t ht))
        (fun t ht w => ⟨t.attachOne_elementsAfter attachDeep w,
          ihNested t ht (hnested s h t ht) w⟩) w
      rw [hres, Option.toList_some, mem_walkAll] at ht
      obtain ⟨u, hu, ht⟩ := ht
      obtain rfl := List.mem_singleton.mp hu
      refine forall_walk_rebuilt hempty hbs.length_eq.symm hts.length_eq.symm (fun b hb => ?_)
        (hnode s bs ts d h hs (hts.imp fun _ _ h => h.1)) (fun o ho => ?_) t ht
      · obtain ⟨_, -, hq⟩ := exists_of_forall₂ hbs hb
        exact hq
      · obtain ⟨_, -, hq⟩ := exists_of_forall₂ hts ho
        exact hq.2

end

/-- What comes out of a parsed statement is ready to be lowered, all the way through. -/
theorem Stmt.attachOne_ready (s : Stmt) (h : s.WellFormed) :
    ∀ w, ∀ t ∈ walkAll true (s.attachOne attachDeep w).1.toList, t.Ready :=
  s.forall_walk_attachOne ready_empty
    (fun s h b hb => stmtsWellFormed_iff.mp (s.block_wellFormed h b hb).1)
    (fun _ => nested_wellFormed) (fun _ _ _ _ h hs => ready_rebuilt hs h) h

/-- A parsed program is ready to be lowered once its decorators are attached. -/
theorem Program.attachDecorators_ready {p : Program} (h : p.WellFormed) :
    ∀ t ∈ walkAll true p.attachDecorators.program.body, t.Ready :=
  forall_walk_attachDeep
    (fun s hs => s.attachOne_ready (stmtsWellFormed_iff.mp h.1 s hs)) Waiting.start

end MarkupScript
