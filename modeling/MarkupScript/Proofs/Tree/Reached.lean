import MarkupScript.Proofs.Tree.Every
import MarkupScript.Proofs.Tree.Walk
import MarkupScript.Proofs.Tree.WellFormed

/-!
# What holds of every statement on a walk

A walk comes by every statement of a program, but for those that loops start with and those in the
decorator of a function. So what holds of the parts of a tree can be seen along a walk, and the
other way round.
-/

namespace MarkupScript

theorem mem_walkAll {intoDecorators : Bool} {ss : List Stmt} {t : Stmt} :
    t ∈ walkAll intoDecorators ss ↔ ∃ s ∈ ss, t ∈ s.walk intoDecorators :=
  List.mem_flatMap

theorem Stmt.mem_walk {intoDecorators : Bool} {s t : Stmt} : t ∈ s.walk intoDecorators ↔
    (∃ b ∈ s.entered intoDecorators, t ∈ walkAll intoDecorators b) ∨ t = s ∨
      t ∈ walkAll intoDecorators s.nested := by
  rw [walk_eq, List.mem_append, List.mem_flatMap, List.mem_cons]

/-! ### Well-formed statements -/

/-- An arrow block that was parsed. -/
def BlockWellFormed (b : List Stmt) : Prop := stmtsWellFormed b ∧ Paired b

theorem exprs_block_wellFormed {es : List Expr}
    (ih : ∀ e ∈ es, e.WellFormed → ∀ b ∈ e.arrowBlocks, BlockWellFormed b)
    (h : exprsWellFormed es) {b : List Stmt} (hb : b ∈ exprsArrowBlocks es) :
    BlockWellFormed b := by
  obtain ⟨e, he, hb⟩ := mem_exprsArrowBlocks.mp hb
  exact ih e he (exprsWellFormed_iff.mp h e he) b hb

theorem Expr.block_wellFormed (e : Expr) (h : e.WellFormed) :
    ∀ b ∈ e.arrowBlocks, BlockWellFormed b := by
  revert h
  refine ExprInduction.expr
    (P := fun e => e.WellFormed → ∀ b ∈ e.arrowBlocks, BlockWellFormed b) ?_ e
  constructor
  case atom =>
    intro e he
    cases e <;> simp_all [isAtom, arrowBlocks]
  case binary =>
    rintro left op right s hleft hright ⟨hl, hr⟩ b hb
    rcases List.mem_append.mp hb with hb | hb
    · exact hleft hl b hb
    · exact hright hr b hb
  case unary => exact fun _ _ _ ih h => ih h
  case update => exact fun _ _ _ _ ih h => ih h.2
  case member =>
    rintro object property computed optional s hobject hproperty ⟨ho, hp⟩ b hb
    rcases List.mem_append.mp hb with hb | hb
    · exact hobject ho b hb
    · split at hp
      · exact hproperty hp.1 b hb
      · cases property <;> simp_all [isWord, arrowBlocks]
  case call =>
    rintro callee arguments s hcallee harguments ⟨hc, ha⟩ b hb
    rcases List.mem_append.mp hb with hb | hb
    · exact hcallee hc b hb
    · exact exprs_block_wellFormed harguments ha hb
  case new =>
    rintro callee arguments s hcallee harguments ⟨hc, ha⟩ b hb
    rcases List.mem_append.mp hb with hb | hb
    · exact hcallee hc b hb
    · exact exprs_block_wellFormed harguments ha hb
  case conditional =>
    rintro test consequent alternate s htest hconsequent halternate ⟨ht, hc, ha⟩ b hb
    simp only [arrowBlocks, List.mem_append] at hb
    rcases hb with hb | hb | hb
    · exact htest ht b hb
    · exact hconsequent hc b hb
    · exact halternate ha b hb
  case object =>
    intro properties s ih h b hb
    obtain ⟨p, hp, hb⟩ := mem_propertiesArrowBlocks.mp hb
    have hwf := propertiesWellFormed_iff.mp h p hp
    unfold Property.WellFormed at hwf
    split at hwf
    · obtain ⟨-, span, hvalue⟩ := hwf
      rw [hvalue] at hb
      cases hb
    · exact ih p hp hwf b hb
  case array => exact fun _ _ ih h _ hb => exprs_block_wellFormed ih h hb
  case arrowExpression => exact fun _ _ _ ih h => ih h.2
  case arrowBlock =>
    intro params body s h b hb
    obtain rfl := List.mem_singleton.mp hb
    exact h.2
  case assignment =>
    rintro target op value s htarget hvalue ⟨-, ht, hv⟩ b hb
    rcases List.mem_append.mp hb with hb | hb
    · exact htarget ht b hb
    · exact hvalue hv b hb

theorem expr?_block_wellFormed {e : Option Expr} (h : exprWellFormed? e) {b : List Stmt}
    (hb : b ∈ exprArrowBlocks? e) : BlockWellFormed b := by
  obtain ⟨x, rfl, hb⟩ := mem_exprArrowBlocks?.mp hb
  exact x.block_wellFormed h b hb

theorem declarators_block_wellFormed {ds : List Declarator} (h : declaratorsWellFormed ds)
    {b : List Stmt} (hb : b ∈ declaratorsArrowBlocks ds) : BlockWellFormed b := by
  obtain ⟨d, hd, e, he, hb⟩ := mem_declaratorsArrowBlocks.mp hb
  have hinit := (declaratorsWellFormed_iff.mp h d hd).2
  exact e.block_wellFormed (exprWellFormed?_iff.mp hinit e he) b hb

theorem attributes_block_wellFormed {as : List Attribute} (h : attributesWellFormed as)
    {b : List Stmt} (hb : b ∈ attributesArrowBlocks as) : BlockWellFormed b := by
  obtain ⟨x, e, ha, hb⟩ := mem_attributesArrowBlocks.mp hb
  exact e.block_wellFormed (attributesWellFormed_iff.mp h _ ha).2 b hb

mutual

theorem Stmt.block_wellFormed : ∀ (s : Stmt), s.WellFormed →
    ∀ b ∈ s.arrowBlocks, BlockWellFormed b
  | .expression value, h, b, hb => value.block_wellFormed h b hb
  | .declaration _ _, h, _, hb => declarators_block_wellFormed h.2 hb
  | .return_ _, h, _, hb => expr?_block_wellFormed h hb
  | .if_ test _ _, h, b, hb => test.block_wellFormed h.1 b hb
  | .while_ test _, h, b, hb => test.block_wellFormed h.1 b hb
  | .for_ init test update body, ⟨_, hinit, htest, hupdate, _⟩, b, hb => by
    simp only [Stmt.arrowBlocks, List.mem_append] at hb
    rcases hb with hb | hb | hb
    · exact stmt?_block_wellFormed init hinit b hb
    · exact expr?_block_wellFormed htest hb
    · exact expr?_block_wellFormed hupdate hb
  | .elementStart _ _ _, h, _, hb => attributes_block_wellFormed h.2 hb
  | .element _ _ _, h, _, hb => attributes_block_wellFormed h.2 hb
  | .decorator ⟨_, _, _⟩, h, _, hb =>
    exprs_block_wellFormed (fun e _ => e.block_wellFormed) h.2 hb
termination_by structural x => x

theorem stmt?_block_wellFormed : ∀ (s : Option Stmt), stmtWellFormed? s →
    ∀ b ∈ stmtArrowBlocks? s, BlockWellFormed b
  | some s, h, b, hb => s.block_wellFormed h b hb
termination_by structural x => x

end

theorem Stmt.nested_wellFormed {s : Stmt} (h : s.WellFormed) : ∀ t ∈ s.nested, t.WellFormed := by
  cases s with
  | function => exact stmtsWellFormed_iff.mp h.2.2.1
  | block => exact stmtsWellFormed_iff.mp h
  | if_ test consequent alternate =>
    intro t ht
    rcases List.mem_cons.mp ht with rfl | ht
    · exact h.2.1
    · exact stmtWellFormed?_iff.mp h.2.2.1 t (Option.mem_toList.mp ht)
  | while_ =>
    intro t ht
    obtain rfl := List.mem_singleton.mp ht
    exact h.2
  | for_ =>
    intro t ht
    obtain rfl := List.mem_singleton.mp ht
    exact h.2.2.2.2
  | export_ =>
    intro t ht
    obtain rfl := List.mem_singleton.mp ht
    exact h.2
  | _ => exact fun _ ht => nomatch ht

/-- All statements on a walk through what was parsed are as if parsed. -/
theorem Stmt.walk_wellFormed (intoDecorators : Bool) (s : Stmt) (h : s.WellFormed) :
    ∀ t ∈ s.walk intoDecorators, t.WellFormed := by
  induction s using Stmt.induction with
  | step s ihBlocks ihNested =>
    intro t ht
    rcases mem_walk.mp ht with ⟨b, hb, ht⟩ | rfl | ht
    · have hb := mem_arrowBlocks_of_entered hb
      obtain ⟨u, hu, ht⟩ := mem_walkAll.mp ht
      have hwf := stmtsWellFormed_iff.mp (s.block_wellFormed h b hb).1 u hu
      exact ihBlocks b hb u hu hwf t ht
    · exact h
    · obtain ⟨u, hu, ht⟩ := mem_walkAll.mp ht
      exact ihNested u hu (nested_wellFormed h u hu) t ht

end MarkupScript
