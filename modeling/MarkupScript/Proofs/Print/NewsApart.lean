import MarkupScript.Proofs.Parse.NewTwice
import MarkupScript.Proofs.Print.Regrouped

/-!
# `new` behind `new` in a text

Two `new` in a row are read only if the first is the name of a property, which stands behind a dot.
In the text of an expression without arrow blocks they come in a row otherwise just if the callee of a
`new` starts with `new` and is printed without parentheses.
-/

namespace MarkupScript

/-! ### Lexemes with two `new` in a row -/

theorem NewTwice.append {before : Kind} {ks ms : List Kind} (h : NewTwice before ks) :
    NewTwice before (ks ++ ms) := by
  induction ks generalizing before with
  | nil => exact h.elim
  | cons k ks ih =>
    rcases h with ⟨hdot, hk, hnext⟩ | h
    · refine .inl ⟨hdot, hk, ?_⟩
      cases ks with
      | nil => cases hnext
      | cons k' ks => exact hnext
    · exact .inr (ih h)

theorem NewTwice.behind {before k : Kind} {ks ms : List Kind} (h : NewTwice k ms) :
    NewTwice before (ks ++ k :: ms) := by
  induction ks generalizing before with
  | nil => exact .inr h
  | cons k' ks ih => exact .inr ih

/-- Behind something that is no dot, the lexemes have no two `new` in a row. -/
def NewsApart (ls : List Lexeme) : Prop :=
  ∃ before : Kind, before.isDot = false ∧ ¬NewTwice before (ls.map (·.kind))

theorem NewsApart.inherited : Inherited NewsApart where
  front := by
    rintro ls ms ⟨before, hdot, h⟩
    rw [List.map_append] at h
    exact ⟨before, hdot, fun htwice => h htwice.append⟩
  behind := by
    rintro ls l ms ⟨before, -, h⟩ hdot
    rw [List.map_append] at h
    exact ⟨l.kind, hdot, fun htwice => h htwice.behind⟩
  sameLine := by
    rintro (_ | ⟨l, ls⟩) h <;> exact h

/-! ### Callees that start with `new` -/

namespace Expr

theorem isNumber_of_startsWithNew {e : Expr} (h : e.startsWithNew = true) :
    e.isNumber = false := by
  cases e <;> first | rfl | cases h

theorem lexemesInPlace_of_startsWithNew {e : Expr} (h : e.startsWithNew = true)
    (ls : List Lexeme) : e.lexemesInPlace Level.call ls = ls := by
  cases e <;> first | rfl | cases h

/-- A chain that starts with `new` has it for its first lexeme. -/
theorem lexemes_of_startsWithNew : ∀ {e : Expr}, e.startsWithNew = true →
    ∃ l ls, e.lexemes = l :: ls ∧ l.kind.isNew = true
  | .member base property computed optional _, h => by
    replace h : base.startsWithNew = true := h
    obtain ⟨l, ls, hbase, hl⟩ := lexemes_of_startsWithNew h
    rw [Expr.lexemes, isNumber_of_startsWithNew h, lexemesInPlace_of_startsWithNew h, hbase]
    cases computed <;> cases optional <;> exact ⟨l, _, rfl, hl⟩
  | .call callee arguments _, h => by
    replace h : callee.startsWithNew = true := h
    obtain ⟨l, ls, hcallee, hl⟩ := lexemes_of_startsWithNew h
    rw [Expr.lexemes, lexemesInPlace_of_startsWithNew h, hcallee]
    exact ⟨l, _, rfl, hl⟩
  | .new callee arguments _, _ => ⟨_, _, rfl, rfl⟩

/-- If no two `new` come in a row, `new` has no callee that starts with it. -/
theorem newIsApart_of_newsApart {e : Expr} (hs : NewsApart e.lexemes) : e.newIsApart = true := by
  cases e with
  | new callee arguments span =>
    cases hcall : callee.isCall with
    | true => simp [newIsApart, hcall]
    | false =>
      cases hstart : callee.startsWithNew with
      | false => simp [newIsApart, hstart]
      | true =>
        obtain ⟨l, ls, hcallee, hl⟩ := lexemes_of_startsWithNew hstart
        obtain ⟨before, hdot, h⟩ := hs
        rw [Expr.lexemes, hcall, lexemesInPlace_of_startsWithNew hstart, hcallee] at h
        exact absurd (.inl ⟨hdot, rfl, hl⟩) h
  | _ => rfl

theorem every_newIsApart_of_newsApart {e : Expr} (hwf : e.WellFormed)
    (hinline : e.every isInline (fun _ => true) = true) (hs : NewsApart e.lexemes) :
    e.every newIsApart (fun _ => true) = true := by
  -- without arrow blocks there are no statements, so any test of them is passed
  have hnone : e.every isInline (fun _ => false) = true :=
    (every_of_isInline fun _ _ => id).expr e hinline hinline
  refine (NewsApart.inherited.every (fun ss hss _ s hs => ?_) (fun _ _ => newIsApart_of_newsApart)
    (fun _ _ _ => rfl) (fun _ _ => rfl) fun _ _ => rfl).expr e ⟨hwf, hnone⟩ hs
  exact absurd (hss s hs).passes Bool.false_ne_true

end Expr

end MarkupScript
