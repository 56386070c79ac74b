import MarkupScript.Proofs.Parse.Run

/-!
# Parsers go forward

A parser takes tokens from the front of a stream, and never the end of the input. `Advances` says
this of a parser on all streams with fewer than `n` tokens ahead, however it ends: if it fails, then
not for want of depth, and for a reason that concerns a token of the stream.

A construct hands over to its parts behind a token of its own. So if its parts can be relied on for
fewer than `n` tokens, it can be relied on for fewer than `n + 1` (`Advances.enter`), and the number
of tokens is always depth enough.
-/

namespace MarkupScript

/-- Whether a token is the end of the input. -/
def Kind.isEnd : Kind → Bool
  | .endOfInput => true
  | _ => false

theorem Kind.ne_endOfInput {k : Kind} (h : k.isEnd = false) : k ≠ .endOfInput := by
  rintro rfl
  cases h

/-- A token that something is told by is not the end of the input, if nothing is told by that. -/
theorem Kind.isEnd_of_some {α : Type} {f : Kind → Option α} (hf : f .endOfInput = none)
    {k : Kind} {a : α} (h : f k = some a) : k.isEnd = false := by
  cases k with
  | endOfInput =>
    rw [hf] at h
    cases h
  | _ => rfl

/-- What is left of tokens when some are taken from the front, none of them the end of the input. -/
def Leaves (tokens rest : List Token) : Prop :=
  ∃ taken, tokens = taken ++ rest ∧ ∀ t ∈ taken, t.kind ≠ .endOfInput

namespace Leaves

theorem refl (tokens : List Token) : Leaves tokens tokens := ⟨[], rfl, by simp⟩

theorem trans {tokens middle rest : List Token} (h : Leaves tokens middle)
    (h' : Leaves middle rest) : Leaves tokens rest := by
  obtain ⟨taken, rfl, htaken⟩ := h
  obtain ⟨taken', rfl, htaken'⟩ := h'
  refine ⟨taken ++ taken', by rw [List.append_assoc], fun t ht => ?_⟩
  rcases List.mem_append.mp ht with ht | ht
  · exact htaken t ht
  · exact htaken' t ht

theorem length_le {tokens rest : List Token} (h : Leaves tokens rest) :
    rest.length ≤ tokens.length := by
  obtain ⟨taken, rfl, -⟩ := h
  simp

end Leaves

/-- The place of a token that a stream shows next on its way through the tokens. -/
def Shown (tokens : List Token) (span : Span) : Prop :=
  ∃ rest, Leaves tokens rest ∧ span = (rest.head?.getD .past).span

/-- A failure that has to do with a token, and not with the depth. -/
def Fault (tokens : List Token) (e : SyntaxError) : Prop :=
  e.cause ≠ .nesting ∧ ∃ span, Shown tokens span ∧ e.line = span.line ∧ e.column = span.column

namespace Parse

variable {α β : Type} {p : Parse α} {tokens : List Token} {P : Kind → Prop} {n m : Nat}
  {takes takes' : Bool}

/-- How a parser may end that began with some tokens ahead; if it `takes` tokens, then not without
having taken one. -/
def Outcome (takes : Bool) (tokens ahead : List Token) :
    EStateM.Result SyntaxError Stream α → Prop
  | .ok _ s => Leaves ahead s.ahead ∧ (takes = true → s.ahead.length < ahead.length)
  | .error e s => Leaves ahead s.ahead ∧ Fault tokens e

/-- What a parser does on the streams on the way through some tokens that have fewer than `n` of
them ahead, the next of a kind with the property `P`. -/
def Advances (takes : Bool) (tokens : List Token) (P : Kind → Prop) (n : Nat) (p : Parse α) : Prop :=
  ∀ ⦃s⦄, Leaves tokens s.ahead → s.ahead.length < n → P s.kind → Outcome takes tokens s.ahead (p s)

/-- What was taken at first is taken in the end. -/
theorem Outcome.trans {ahead middle : List Token} {r : EStateM.Result SyntaxError Stream α}
    (h : Leaves ahead middle) (hr : Outcome takes tokens middle r)
    (htakes : takes' = true → takes = true ∨ middle.length < ahead.length) :
    Outcome takes' tokens ahead r := by
  cases r with
  | ok a s =>
    refine ⟨h.trans hr.1, fun ht => ?_⟩
    rcases htakes ht with ht | ht
    · exact Nat.lt_of_lt_of_le (hr.2 ht) h.length_le
    · exact Nat.lt_of_le_of_lt hr.1.length_le ht
  | error e s => exact ⟨h.trans hr.1, hr.2⟩

namespace Advances

theorem anywhere (h : Advances takes tokens (fun _ => True) n p) : Advances takes tokens P n p :=
  fun _ hs hn _ => h hs hn trivial

theorem mono (h : Advances takes tokens P n p) (hm : m ≤ n) : Advances takes tokens P m p :=
  fun _ hs hn hP => h hs (Nat.lt_of_lt_of_le hn hm) hP

/-- What can be relied on for a construct can be relied on in its parts. -/
theorem inner (h : Advances takes tokens P (n + 1) p) : Advances takes tokens P n p :=
  h.mono (Nat.le_succ n)

theorem loose (h : Advances takes tokens P n p) : Advances false tokens P n p :=
  fun s hs hn hP => .trans (.refl s.ahead) (h hs hn hP) (fun h => Bool.noConfusion h)

/-- There are never fewer than no tokens ahead. -/
theorem zero : Advances takes tokens P 0 p :=
  fun _ _ hn _ => absurd hn (Nat.not_lt_zero _)

theorem bind {f : α → Parse β} (hp : Advances takes tokens P n p)
    (hf : ∀ a, Advances takes' tokens (fun _ => True) n (f a)) :
    Advances takes' tokens P n (p >>= f) := by
  intro s hs hn hP
  have hout := hp hs hn hP
  cases h : p s with
  | ok a s₁ =>
    rw [h] at hout
    rw [run_bind h]
    have hn₁ := Nat.lt_of_le_of_lt hout.1.length_le hn
    exact .trans hout.1 (hf a (hs.trans hout.1) hn₁ trivial) .inl
  | error e s₁ =>
    rw [h] at hout
    rw [run_bind_error h]
    exact hout

/-- Behind a token there are fewer tokens ahead. -/
theorem enter {f : α → Parse β} (hp : Advances true tokens P (n + 1) p)
    (hf : ∀ a, Advances false tokens (fun _ => True) n (f a)) :
    Advances true tokens P (n + 1) (p >>= f) := by
  intro s hs hn hP
  have hout := hp hs hn hP
  cases h : p s with
  | ok a s₁ =>
    rw [h] at hout
    rw [run_bind h]
    have htaken := hout.2 rfl
    have hn₁ := Nat.lt_of_lt_of_le htaken (Nat.le_of_lt_succ hn)
    exact .trans hout.1 (hf a (hs.trans hout.1) hn₁ trivial) fun _ => .inr htaken
  | error e s₁ =>
    rw [h] at hout
    rw [run_bind_error h]
    exact hout

theorem andThen {f : α → Parse β} (hp : Advances true tokens P n p)
    (hf : ∀ a, Advances false tokens (fun _ => True) n (f a)) :
    Advances true tokens P n (p >>= f) := by
  cases n with
  | zero => exact zero
  | succ n => exact enter hp fun a => (hf a).inner

theorem pure {a : α} : Advances false tokens P n (Pure.pure a) :=
  fun s _ _ _ => ⟨.refl s.ahead, fun h => Bool.noConfusion h⟩

theorem map {f : α → β} (hp : Advances takes tokens P n p) :
    Advances false tokens P n (f <$> p) := by
  rw [map_eq_pure_bind]
  exact bind hp fun _ => pure

theorem failAt {span : Span} {cause : SyntaxError.Cause} (hspan : Shown tokens span)
    (hcause : cause ≠ .nesting) :
    Advances takes tokens P n (Parse.failAt span cause : Parse α) :=
  fun s _ _ _ => ⟨.refl s.ahead, hcause, span, hspan, rfl, rfl⟩

theorem fail {cause : SyntaxError.Cause} (hcause : cause ≠ .nesting) :
    Advances takes tokens P n (Parse.fail cause : Parse α) :=
  fun s hs _ _ => ⟨.refl s.ahead, hcause, s.next.span, ⟨s.ahead, hs, rfl⟩, rfl, rfl⟩

/-- Nothing comes behind a parser that never succeeds. -/
theorem of_never {f : α → Parse β} (hp : Advances true tokens P n p)
    (h : ∀ s a s', p s ≠ .ok a s') : Advances takes' tokens P n (p >>= f) := by
  intro s hs hn hP
  have hout := hp hs hn hP
  cases hp : p s with
  | ok a s₁ => exact absurd hp (h s a s₁)
  | error e s₁ =>
    rw [hp] at hout
    rw [run_bind_error hp]
    exact hout

/-- A change of the open elements takes nothing. -/
theorem modify {f : Stream → Stream} (h : ∀ s, (f s).ahead = s.ahead) :
    Advances false tokens P n (modify f : Parse Unit) := by
  intro s _ _ _
  show Leaves s.ahead (f s).ahead ∧ (false = true → (f s).ahead.length < s.ahead.length)
  rw [h]
  exact ⟨.refl s.ahead, fun h => Bool.noConfusion h⟩

theorem withoutElements (h : Advances takes tokens (fun _ => True) n p) :
    Advances takes tokens P n (withoutElements p) := by
  intro s hs hn _
  have hout := h (s := { s with elements := [] }) hs hn trivial
  unfold Parse.withoutElements
  cases hp : p { s with elements := [] } with
  | ok a s' =>
    rw [hp] at hout
    exact hout
  | error e s' =>
    rw [hp] at hout
    exact hout

/-! ### Looking ahead -/

/-- What a look at the stream shows is still next. -/
theorem look {q : Parse α} {f : α → Parse β} {g : Stream → α} (hq : ∀ s, q s = .ok (g s) s)
    (h : ∀ s, Leaves tokens s.ahead → P s.kind → Advances takes tokens (· = s.kind) n (f (g s))) :
    Advances takes tokens P n (q >>= f) := by
  intro s hs hn hP
  rw [run_bind (hq s)]
  exact h s hs hP hs hn rfl

theorem peek {f : Token → Parse β}
    (h : ∀ t, Shown tokens t.span → P t.kind → Advances takes tokens (· = t.kind) n (f t)) :
    Advances takes tokens P n (Parse.peek >>= f) :=
  look run_peek fun s hs hP => h s.next ⟨s.ahead, hs, rfl⟩ hP

theorem peekKind {f : Kind → Parse β} (h : ∀ k, P k → Advances takes tokens (· = k) n (f k)) :
    Advances takes tokens P n (Parse.peekKind >>= f) :=
  look run_peekKind fun s _ hP => h s.kind hP

theorem check {kind : Kind} {f : Bool → Parse β}
    (h : ∀ k, P k → Advances takes tokens (· = k) n (f (k == kind))) :
    Advances takes tokens P n (Parse.check kind >>= f) :=
  look (run_check kind) fun s _ hP => h s.kind hP

theorem get {f : Stream → Parse β} (h : ∀ s, Advances takes tokens P n (f s)) :
    Advances takes tokens P n (MonadState.get >>= f) :=
  fun s hs hn hP => h s hs hn hP

/-- The budget of a loop is more than the number of tokens ahead. -/
theorem budget {f : Nat → Parse β} (h : ∀ k ≤ n, Advances takes tokens P k (f k)) :
    Advances takes tokens P n (Parse.budget >>= f) :=
  fun s hs hn hP => h (s.ahead.length + 1) hn hs (Nat.lt_succ_self _) hP

theorem spanFrom {start : Span} {f : Span → Parse β}
    (h : ∀ span, Advances takes tokens P n (f span)) :
    Advances takes tokens P n (Parse.spanFrom start >>= f) :=
  fun s hs hn hP => h (spanTo start s.behind) hs hn hP

theorem failExpecting {what : Expectation} :
    Advances takes tokens P n (Parse.failExpecting what : Parse α) :=
  peekKind fun _ _ => fail (by simp)

/-! ### Single tokens -/

/-- Takes the token that was seen. -/
theorem advance {k : Kind} (hk : k.isEnd = false) :
    Advances true tokens (· = k) n Parse.advance := by
  rintro ⟨b, ahead, els⟩ _ _ rfl
  cases ahead with
  | nil => cases hk
  | cons t ahead =>
    exact ⟨⟨[t], rfl, by simpa using Kind.ne_endOfInput hk⟩, fun _ => Nat.lt_succ_self _⟩

theorem eat {k : Kind} (hk : k.isEnd = false) :
    Advances false tokens P n (eat k) := by
  refine check fun k' _ => ?_
  split
  · next heq =>
    obtain rfl : k' = k := by simpa using heq
    exact bind (advance hk) fun _ => pure
  · exact pure

theorem expect {k : Kind} (hk : k.isEnd = false) :
    Advances true tokens P n (expect k) := by
  intro s hs hn hP
  by_cases hkind : s.kind = k
  · obtain ⟨b, ahead, els⟩ := s
    cases ahead with
    | nil =>
      cases hkind
      cases hk
    | cons t ahead =>
      rw [run_expect (t := t) hkind]
      exact advance hk hs hn hkind
  · rw [Parse.expect, run_bind (run_eat_other hkind)]
    exact failExpecting (P := P) hs hn hP

theorem expectSymbol {mark : Symbol} : Advances true tokens P n (expectSymbol mark) :=
  expect rfl

theorem identifier : Advances true tokens P n identifier := by
  refine peekKind fun k _ => ?_
  split
  · exact andThen (advance rfl) fun _ => pure
  · exact failExpecting

theorem word {what : Expectation} : Advances true tokens P n (word what) := by
  refine peekKind fun k _ => ?_
  split
  · next hx => exact andThen (advance (Kind.isEnd_of_some rfl hx)) fun _ => pure
  · exact failExpecting

theorem name {what : Expectation} : Advances true tokens P n (name what) := by
  refine peekKind fun k _ => ?_
  split
  · exact andThen (advance rfl) fun _ => pure
  · exact failExpecting

theorem semicolon : Advances false tokens P n semicolon := by
  refine bind (eat rfl) fun b => ?_
  split
  · exact pure
  · refine peek fun t _ _ => ?_
    split
    · exact pure
    · exact failExpecting

/-! ### Lists

A loop with a budget of `fuel` can be relied on for fewer than `fuel` tokens, since each item takes
one. -/

theorem itemsWhile_loop {goesOn : Kind → Bool} (hp : Advances true tokens (fun _ => True) n p)
    {fuel k : Nat} (hfuel : k ≤ fuel) (hk : k ≤ n) :
    Advances false tokens P k (itemsWhile.loop goesOn p fuel) := by
  induction fuel generalizing k P with
  | zero => exact zero.mono hfuel
  | succ fuel ih =>
    cases k with
    | zero => exact zero
    | succ k =>
      refine peekKind fun _ _ => ?_
      split
      · refine (enter (hp.mono hk).anywhere fun _ => ?_).loose
        exact bind (ih (Nat.le_of_succ_le_succ hfuel) (Nat.le_of_succ_le hk)) fun _ => pure
      · exact pure

theorem itemsWhile {goesOn : Kind → Bool} (hp : Advances true tokens (fun _ => True) n p) :
    Advances false tokens P n (itemsWhile goesOn p) :=
  budget fun k hk => itemsWhile_loop hp (Nat.le_refl k) hk

theorem commaList_loop {close : Symbol} (hp : Advances true tokens (fun _ => True) n p)
    {fuel k : Nat} (hfuel : k ≤ fuel) (hk : k ≤ n) :
    Advances false tokens P k (commaList.loop close p fuel) := by
  induction fuel generalizing k P with
  | zero => exact zero.mono hfuel
  | succ fuel ih =>
    cases k with
    | zero => exact zero
    | succ k =>
      refine check fun _ _ => ?_
      split
      · exact pure
      · refine (enter (hp.mono hk).anywhere fun _ => bind (eat rfl) fun b => ?_).loose
        split
        · exact bind (ih (Nat.le_of_succ_le_succ hfuel) (Nat.le_of_succ_le hk)) fun _ => pure
        · exact pure

/-- The closing mark is taken with the items. -/
theorem commaList {close : Symbol} (hp : Advances true tokens (fun _ => True) n p) :
    Advances true tokens P n (commaList close p) :=
  budget fun k hk => bind (commaList_loop hp (Nat.le_refl k) hk) fun _ =>
    andThen expectSymbol fun _ => pure

theorem commaItems_loop (hp : Advances true tokens (fun _ => True) n p) {fuel k : Nat}
    (hfuel : k ≤ fuel) (hk : k ≤ n) : Advances true tokens P k (commaItems.loop p fuel) := by
  induction fuel generalizing k P with
  | zero => exact zero.mono hfuel
  | succ fuel ih =>
    cases k with
    | zero => exact zero
    | succ k =>
      refine enter (hp.mono hk).anywhere fun _ => bind (eat rfl) fun b => ?_
      split
      · exact bind (ih (Nat.le_of_succ_le_succ hfuel) (Nat.le_of_succ_le hk)) fun _ => pure
      · exact pure

theorem commaItems (hp : Advances true tokens (fun _ => True) n p) :
    Advances true tokens P n (commaItems p) :=
  budget fun k hk => commaItems_loop hp (Nat.le_refl k) hk

end Advances

end Parse

end MarkupScript
