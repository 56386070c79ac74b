import MarkupScript.Proofs.Parse.Run
import MarkupScript.Proofs.Tree.WellFormed

/-!
# What parsers give

`Yields p Q` says that all results of the parser `p` have the property `Q`, if the tokens in front of
it can be read, and that it leaves the open elements as they were. Parsers are put together by
`bind`, lists and choices, and so are the statements about them.
-/

namespace MarkupScript

/-- The tokens to come are such that can be read. -/
def Stream.Sound (s : Stream) : Prop := ∀ t ∈ s.ahead, t.kind.WellFormed

theorem Stream.Sound.next {s : Stream} (h : s.Sound) : s.next.kind.WellFormed := by
  unfold Stream.next
  cases hs : s.ahead with
  | nil => trivial
  | cons t rest => exact h t (by simp [hs])

/-- A token that can be read where any word may stand is a word. -/
theorem Kind.isIdentifierText_of_word? {k : Kind} (hk : k.WellFormed) {x : String}
    (h : k.word? = some x) : isIdentifierText x = true := by
  cases k with
  | identifier name =>
    cases h
    exact hk.1
  | boolean b =>
    cases b <;> cases h <;> decide +kernel
  | null =>
    cases h
    decide +kernel
  | keyword k =>
    cases h
    cases k <;> decide +kernel
  | _ => cases h

namespace Parse

variable {α β : Type} {p : Parse α} {Q : α → Prop} {R : β → Prop}

/-- All results of a parser have a property, and the open elements stay. -/
def Yields (p : Parse α) (Q : α → Prop) : Prop :=
  ∀ ⦃s a s'⦄, s.Sound → p s = .ok a s' → s'.Sound ∧ s'.elements = s.elements ∧ Q a

namespace Yields

theorem bind {f : α → Parse β} (hp : Yields p Q) (hf : ∀ a, Q a → Yields (f a) R) :
    Yields (p >>= f) R := by
  intro s b s' hs h
  obtain ⟨a, s₁, h₁, h₂⟩ := bind_eq_ok.mp h
  obtain ⟨hs₁, hels₁, ha⟩ := hp hs h₁
  obtain ⟨hs₂, hels₂, hb⟩ := hf a ha hs₁ h₂
  exact ⟨hs₂, hels₂.trans hels₁, hb⟩

theorem pure {a : α} (h : Q a) : Yields (Pure.pure a) Q := by
  intro s b s' hs hp
  obtain ⟨rfl, rfl⟩ := pure_eq_ok.mp hp
  exact ⟨hs, rfl, h⟩

theorem map {f : α → β} (hp : Yields p Q) (hf : ∀ a, Q a → R (f a)) : Yields (f <$> p) R := by
  intro s b s' hs h
  obtain ⟨a, ha, rfl⟩ := map_eq_ok.mp h
  obtain ⟨hs', hels, ha⟩ := hp hs ha
  exact ⟨hs', hels, hf a ha⟩

theorem mono {Q' : α → Prop} (hp : Yields p Q) (h : ∀ a, Q a → Q' a) : Yields p Q' :=
  fun _ _ _ hs hr => (hp hs hr).imp_right (And.imp_right (h _))

theorem fail {cause : SyntaxError.Cause} : Yields (Parse.fail cause) Q :=
  fun _ _ _ _ h => (fail_ne_ok.mp h).elim

theorem failAt {span : Span} {cause : SyntaxError.Cause} : Yields (Parse.failAt span cause) Q :=
  fun _ _ _ _ h => (failAt_ne_ok.mp h).elim

theorem failExpecting {what : Expectation} : Yields (Parse.failExpecting what) Q :=
  fun _ _ _ _ h => (failExpecting_ne_ok.mp h).elim

/-! ### Single tokens -/

/-- A parser that only looks at the stream. -/
theorem of_look {f : Stream → α} (h : ∀ s, p s = .ok (f s) s) (hf : ∀ s, s.Sound → Q (f s)) :
    Yields p Q := by
  intro s a s' hs hp
  obtain ⟨rfl, rfl⟩ : f s = a ∧ s = s' := by simpa [h] using hp
  exact ⟨hs, rfl, hf s hs⟩

theorem get : Yields (get : Parse Stream) Stream.Sound := of_look run_get fun _ h => h

theorem peek : Yields peek (·.kind.WellFormed) := of_look run_peek fun _ h => h.next

theorem peekKind : Yields peekKind Kind.WellFormed := of_look run_peekKind fun _ h => h.next

theorem budget : Yields budget fun _ => True := of_look run_budget fun _ _ => trivial

theorem check (k : Kind) : Yields (check k) fun _ => True := of_look (run_check k) fun _ _ => trivial

theorem spanFrom (start : Span) : Yields (spanFrom start) fun _ => True :=
  of_look (run_spanFrom start) fun _ _ => trivial

theorem advance : Yields advance fun _ => True := by
  rintro ⟨b, ahead, els⟩ a s' hs h
  cases ahead with
  | nil =>
    cases h
    exact ⟨hs, rfl, trivial⟩
  | cons t ahead =>
    cases h
    exact ⟨fun x hx => hs x (List.mem_cons_of_mem t hx), rfl, trivial⟩

theorem eat (k : Kind) : Yields (eat k) fun _ => True := by
  refine bind (check k) fun b _ => ?_
  split
  · exact bind advance fun _ _ => pure trivial
  · exact pure trivial

theorem expect (k : Kind) : Yields (expect k) fun _ => True := by
  refine bind (eat k) fun b _ => ?_
  split
  · exact pure trivial
  · exact failExpecting

theorem expectSymbol (mark : Symbol) : Yields (expectSymbol mark) fun _ => True :=
  expect (.symbol mark)

theorem identifier : Yields identifier IsIdentifier := by
  refine bind peekKind fun k hk => ?_
  split
  · exact bind advance fun _ _ => pure hk
  · exact failExpecting

theorem word (what : Expectation) : Yields (word what) (isIdentifierText · = true) := by
  refine bind peekKind fun k hk => ?_
  split
  · next text htext => exact bind advance fun _ _ => pure (Kind.isIdentifierText_of_word? hk htext)
  · exact failExpecting

theorem name (what : Expectation) : Yields (name what) (isTagName · = true) := by
  refine bind peekKind fun k hk => ?_
  split
  · exact bind advance fun _ _ => pure hk
  · exact failExpecting

theorem semicolon : Yields semicolon fun _ => True := by
  refine bind (eat _) fun b _ => ?_
  split
  · exact pure trivial
  · refine bind peek fun t _ => ?_
    split
    · exact pure trivial
    · exact failExpecting

/-! ### Lists -/

theorem itemsWhile {goesOn : Kind → Bool} (hp : Yields p Q) :
    Yields (itemsWhile goesOn p) fun xs => ∀ x ∈ xs, Q x := by
  refine bind budget fun n _ => ?_
  induction n with
  | zero => exact fail
  | succ n ih =>
    refine bind peekKind fun k _ => ?_
    split
    · exact bind hp fun x hx => bind ih fun xs hxs => pure (List.forall_mem_cons.mpr ⟨hx, hxs⟩)
    · exact pure nofun

theorem commaList {close : Symbol} (hp : Yields p Q) :
    Yields (commaList close p) fun xs => ∀ x ∈ xs, Q x := by
  refine bind budget fun n _ => bind ?_ fun xs hxs => bind (expectSymbol _) fun _ _ => pure hxs
  induction n with
  | zero => exact fail
  | succ n ih =>
    refine bind (check _) fun b _ => ?_
    split
    · exact pure nofun
    · refine bind hp fun x hx => bind (eat _) fun b _ => ?_
      split
      · exact bind ih fun xs hxs => pure (List.forall_mem_cons.mpr ⟨hx, hxs⟩)
      · exact pure (by simpa using hx)

theorem commaItems (hp : Yields p Q) :
    Yields (commaItems p) fun xs => xs ≠ [] ∧ ∀ x ∈ xs, Q x := by
  refine bind budget fun n _ => ?_
  induction n with
  | zero => exact fail
  | succ n ih =>
    refine bind hp fun x hx => bind (eat _) fun b _ => ?_
    split
    · exact bind ih fun xs hxs => pure ⟨nofun, List.forall_mem_cons.mpr ⟨hx, hxs.2⟩⟩
    · exact pure ⟨nofun, by simpa using hx⟩

end Yields

end Parse

end MarkupScript
