import MarkupScript.Parse.Statement

/-!
# Running parsers

What the small parsers do with a stream, as equations. A parser is run step by step: a sequence
runs its first part and hands the result and the stream on.
-/

namespace MarkupScript

/-- The kind of the token that a stream with these tokens shows next. -/
def nextKind (ahead : List Token) : Kind := (ahead.head?.getD .past).kind

@[simp] theorem nextKind_cons (t : Token) (ahead : List Token) :
    nextKind (t :: ahead) = t.kind := rfl

@[simp] theorem Stream.kind_mk (b : Option Token) (ahead : List Token) (els : List String) :
    (Stream.mk b ahead els).kind = nextKind ahead := rfl

@[simp] theorem Stream.next_cons (b : Option Token) (t : Token) (ahead : List Token)
    (els : List String) : (Stream.mk b (t :: ahead) els).next = t := rfl

namespace Parse

variable {α β : Type}

/-! ### Sequences -/

theorem run_bind {p : Parse α} {f : α → Parse β} {s s' : Stream} {a : α} (h : p s = .ok a s') :
    (p >>= f) s = f a s' := by
  simp only [bind, EStateM.bind, h]

theorem run_bind_error {p : Parse α} {f : α → Parse β} {s s' : Stream} {e : SyntaxError}
    (h : p s = .error e s') : (p >>= f) s = .error e s' := by
  simp only [bind, EStateM.bind, h]

theorem bind_eq_ok {p : Parse α} {f : α → Parse β} {s s' : Stream} {b : β} :
    (p >>= f) s = .ok b s' ↔ ∃ a s₁, p s = .ok a s₁ ∧ f a s₁ = .ok b s' := by
  simp only [bind, EStateM.bind]
  cases h : p s with
  | ok a s₁ =>
    constructor
    · intro hf
      exact ⟨a, s₁, rfl, hf⟩
    · rintro ⟨_, _, ⟨⟩, hf⟩
      exact hf
  | error e s₁ => simp

theorem run_map {f : α → β} {p : Parse α} {s s' : Stream} {a : α} (h : p s = .ok a s') :
    (f <$> p) s = .ok (f a) s' := by
  simp only [Functor.map, EStateM.map, h]

theorem map_eq_ok {f : α → β} {p : Parse α} {s s' : Stream} {b : β} :
    (f <$> p) s = .ok b s' ↔ ∃ a, p s = .ok a s' ∧ b = f a := by
  simp only [Functor.map, EStateM.map]
  cases h : p s with
  | ok a s₁ =>
    simp only [EStateM.Result.ok.injEq]
    constructor
    · rintro ⟨rfl, rfl⟩
      exact ⟨a, ⟨rfl, rfl⟩, rfl⟩
    · rintro ⟨_, ⟨rfl, rfl⟩, rfl⟩
      exact ⟨rfl, rfl⟩
  | error e s₁ => simp

theorem pure_eq_ok {a b : α} {s s' : Stream} :
    (pure a : Parse α) s = .ok b s' ↔ b = a ∧ s' = s := by
  simp only [pure, EStateM.pure, EStateM.Result.ok.injEq]
  constructor
  · rintro ⟨rfl, rfl⟩
    exact ⟨rfl, rfl⟩
  · rintro ⟨rfl, rfl⟩
    exact ⟨rfl, rfl⟩

@[simp] theorem run_pure (a : α) (s : Stream) : (pure a : Parse α) s = .ok a s := rfl

/-! ### Single tokens -/

@[simp] theorem run_get (s : Stream) : (get : Parse Stream) s = .ok s s := rfl

@[simp] theorem run_peek (s : Stream) : peek s = .ok s.next s := rfl

@[simp] theorem run_peekKind (s : Stream) : peekKind s = .ok s.kind s := rfl

@[simp] theorem run_budget (s : Stream) : budget s = .ok (s.ahead.length + 1) s := rfl

@[simp] theorem run_check (kind : Kind) (s : Stream) : check kind s = .ok (s.kind == kind) s := rfl

/-- The span of a construct that ends with the token taken last. -/
def spanTo (start : Span) (behind : Option Token) : Span :=
  { start with stop := (behind.map (·.span.stop)).getD start.stop }

@[simp] theorem run_spanFrom (start : Span) (s : Stream) :
    spanFrom start s = .ok (spanTo start s.behind) s := rfl

@[simp] theorem run_advance (b : Option Token) (t : Token) (ahead : List Token)
    (els : List String) : advance ⟨b, t :: ahead, els⟩ = .ok () ⟨some t, ahead, els⟩ := rfl

/-- A failing parser does not succeed. -/
@[simp] theorem fail_ne_ok {cause : SyntaxError.Cause} {s s' : Stream} {a : α} :
    (fail cause : Parse α) s = .ok a s' ↔ False := by
  refine (iff_false _).mpr fun h => ?_
  cases h

@[simp] theorem failAt_ne_ok {span : Span} {cause : SyntaxError.Cause} {s s' : Stream} {a : α} :
    (failAt span cause : Parse α) s = .ok a s' ↔ False := by
  refine (iff_false _).mpr fun h => ?_
  cases h

@[simp] theorem failExpecting_ne_ok {what : Expectation} {s s' : Stream} {a : α} :
    (failExpecting what : Parse α) s = .ok a s' ↔ False := by
  simp [failExpecting, bind_eq_ok]

theorem run_eat {b : Option Token} {t : Token} {ahead : List Token} {els : List String}
    {kind : Kind} (h : t.kind = kind) :
    eat kind ⟨b, t :: ahead, els⟩ = .ok true ⟨some t, ahead, els⟩ := by
  rw [eat, run_bind (run_check kind _)]
  simp only [Stream.kind_mk, nextKind_cons, h, beq_self_eq_true, if_true]
  rfl

theorem run_eat_other {s : Stream} {kind : Kind} (h : s.kind ≠ kind) :
    eat kind s = .ok false s := by
  rw [eat, run_bind (run_check kind _)]
  simp [h]

theorem eat_eq_true {s s' : Stream} {kind : Kind} {b : Bool} (h : eat kind s = .ok b s')
    (hk : s.kind = kind) : b = true := by
  rw [eat, run_bind (run_check kind _), hk, beq_self_eq_true, if_pos rfl] at h
  obtain ⟨_, _, -, h⟩ := bind_eq_ok.mp h
  exact (pure_eq_ok.mp h).1

theorem run_expect {b : Option Token} {t : Token} {ahead : List Token} {els : List String}
    {kind : Kind} (h : t.kind = kind) :
    expect kind ⟨b, t :: ahead, els⟩ = .ok () ⟨some t, ahead, els⟩ := by
  simp [expect, run_bind (run_eat h)]

theorem run_expectSymbol {b : Option Token} {t : Token} {ahead : List Token} {els : List String}
    {mark : Symbol} (h : t.kind = .symbol mark) :
    expectSymbol mark ⟨b, t :: ahead, els⟩ = .ok () ⟨some t, ahead, els⟩ :=
  run_expect h

theorem expect_eq_ok {s s' : Stream} {kind : Kind} {a : Unit} (h : expect kind s = .ok a s') :
    s.kind = kind ∧ advance s = .ok () s' := by
  obtain ⟨b, s₁, heat, h⟩ := bind_eq_ok.mp h
  by_cases hkind : s.kind = kind
  · rw [eat, run_bind (run_check kind _), hkind, beq_self_eq_true, if_pos rfl] at heat
    obtain ⟨_, s₂, hadvance, heat⟩ := bind_eq_ok.mp heat
    obtain ⟨rfl, rfl⟩ := pure_eq_ok.mp heat
    obtain ⟨-, rfl⟩ := pure_eq_ok.mp h
    exact ⟨hkind, hadvance⟩
  · rw [run_eat_other hkind] at heat
    cases heat
    exact (failExpecting_ne_ok.mp h).elim

theorem expectSymbol_eq_ok {s s' : Stream} {mark : Symbol} {a : Unit}
    (h : expectSymbol mark s = .ok a s') :
    ∃ t ahead, s.ahead = t :: ahead ∧ t.kind = .symbol mark ∧ s' = ⟨some t, ahead, s.elements⟩ := by
  obtain ⟨b, ahead, els⟩ := s
  obtain ⟨hkind, hadvance⟩ := expect_eq_ok h
  cases ahead with
  | nil => cases hkind
  | cons t ahead =>
    cases hadvance
    exact ⟨t, ahead, rfl, hkind, rfl⟩

theorem run_identifier {b : Option Token} {t : Token} {ahead : List Token} {els : List String}
    {x : String} (h : t.kind = .identifier x) :
    identifier ⟨b, t :: ahead, els⟩ = .ok x ⟨some t, ahead, els⟩ := by
  rw [identifier, run_bind (run_peekKind _)]
  simp only [Stream.kind_mk, nextKind_cons, h]
  rfl

theorem run_word {b : Option Token} {t : Token} {ahead : List Token} {els : List String}
    {what : Expectation} {x : String} (h : t.kind.word? = some x) :
    word what ⟨b, t :: ahead, els⟩ = .ok x ⟨some t, ahead, els⟩ := by
  rw [word, run_bind (run_peekKind _)]
  simp only [Stream.kind_mk, nextKind_cons, h]
  rfl

theorem run_name {b : Option Token} {t : Token} {ahead : List Token} {els : List String}
    {what : Expectation} {x : String} (h : t.kind = .name x) :
    name what ⟨b, t :: ahead, els⟩ = .ok x ⟨some t, ahead, els⟩ := by
  rw [name, run_bind (run_peekKind _)]
  simp only [Stream.kind_mk, nextKind_cons, h]
  rfl

theorem run_semicolon {b : Option Token} {t : Token} {ahead : List Token} {els : List String}
    (h : t.kind = .symbol .semicolon) :
    semicolon ⟨b, t :: ahead, els⟩ = .ok () ⟨some t, ahead, els⟩ := by
  simp [semicolon, run_bind (run_eat h)]

end Parse

end MarkupScript
