import MarkupScript.Proofs.Parse.Run
import MarkupScript.Proofs.Token.Lossless
import MarkupScript.Proofs.Tree.Nesting

/-!
# Where parsers put spans

A construct starts with the token that is next before it is read and stops with the token taken
last. `Lexing.Starts` describes a stream before a construct and `Lexing.Passed` one behind its first
parts: they lie in a row from the start of the construct to the end of the token taken last. So the
span that a construct gets there holds its parts.

`Places` says of a parser that it gives results placed well and leads from the one kind of stream to
the other. Behind other parts, it adds its own ones to their row.
-/

namespace MarkupScript

/-- A source and its tokens. -/
structure Lexing where
  source : List Char
  tokens : List Token
  lexed : Lexed 0 source tokens

/-- The end of the token taken last. -/
def Stream.reached (s : Stream) : Nat := (s.behind.map (·.span.stop)).getD 0

namespace Lexing

variable {l : Lexing}

/-! ### Tokens -/

theorem start_lt_stop {t : Token} (ht : t ∈ l.tokens) (hkind : t.kind ≠ .endOfInput) :
    t.span.start < t.span.stop :=
  l.lexed.nonempty t ht hkind

theorem stop_le_length {t : Token} (ht : t ∈ l.tokens) : t.span.stop ≤ l.source.length := by
  obtain ⟨front, last, htokens, -, hstart, hstop, -⟩ := l.lexed.ends
  have hordered := l.lexed.ordered
  rw [htokens] at ht hordered
  rcases List.mem_append.mp ht with ht | ht
  · have := (List.pairwise_append.mp hordered).2.2 t ht last (by simp)
    omega
  · obtain rfl := List.mem_singleton.mp ht
    omega

/-- Only the end of the source is an empty token. -/
theorem start_lt_stop_of_lt {t : Token} (ht : t ∈ l.tokens)
    (hlength : t.span.start < l.source.length) : t.span.start < t.span.stop := by
  refine start_lt_stop ht fun hkind => ?_
  obtain ⟨front, last, htokens, -, hstart, -, hfront⟩ := l.lexed.ends
  rw [htokens] at ht
  rcases List.mem_append.mp ht with ht | ht
  · exact hfront t ht hkind
  · obtain rfl := List.mem_singleton.mp ht
    omega

/-- Only one token starts at an offset in the source. -/
theorem eq_of_start_eq {t u : Token} (ht : t ∈ l.tokens) (hu : u ∈ l.tokens)
    (hstart : t.span.start = u.span.start) (hlength : u.span.start < l.source.length) : t = u := by
  have hordered := l.lexed.ordered
  have htlt := start_lt_stop_of_lt ht (hstart ▸ hlength)
  have hult := start_lt_stop_of_lt hu hlength
  obtain ⟨before, behind, htokens⟩ := List.append_of_mem hu
  rw [htokens] at ht hordered
  obtain ⟨-, hbehind, hbefore⟩ := List.pairwise_append.mp hordered
  rcases List.mem_append.mp ht with ht | ht
  · have := hbefore t ht u (by simp)
    omega
  · rcases List.mem_cons.mp ht with rfl | ht
    · rfl
    · have := (List.pairwise_cons.mp hbehind).1 t ht
      omega

/-- A span that starts with a token is placed well, if it holds its parts. -/
theorem isPlaced {t : Token} (ht : t ∈ l.tokens) {stop : Nat} {parts : List Span}
    (hrow : InRow t.span.start parts stop) (hstop : stop ≤ l.source.length) :
    { t.span with stop := stop }.IsPlaced l.tokens l.source.length parts := by
  refine ⟨hrow, hstop, ⟨t, ht, rfl⟩, fun u hu hstart => ?_⟩
  obtain rfl := eq_of_start_eq hu ht hstart (Nat.lt_of_lt_of_le hrow.lt hstop)
  exact ⟨rfl, rfl⟩

/-! ### Streams -/

/-- A stream is at some point of the tokens, and has not taken the end of the source. -/
def Follows (l : Lexing) (s : Stream) : Prop :=
  ∃ before, l.tokens = before ++ s.ahead ∧ s.behind = before.getLast? ∧
    ∀ t ∈ before, t.kind ≠ .endOfInput

/-- A stream in front of a token. -/
structure Starts (l : Lexing) (t : Token) (s : Stream) : Prop where
  follows : l.Follows s
  next : s.next = t

/-- From an offset on, a stream has passed some parts. -/
structure Passed (l : Lexing) (lo : Nat) (spans : List Span) (s : Stream) : Prop where
  follows : l.Follows s
  row : InRow lo spans s.reached

namespace Follows

variable {s s' : Stream}

theorem ofTokens (l : Lexing) : l.Follows (.ofTokens l.tokens) := ⟨[], rfl, rfl, by simp⟩

/-- The end of the source is still to come. -/
theorem exists_next (h : l.Follows s) : ∃ ahead, s.ahead = s.next :: ahead := by
  obtain ⟨before, htokens, -, hbefore⟩ := h
  cases hahead : s.ahead with
  | nil =>
    obtain ⟨front, last, hends, hlast, -⟩ := l.lexed.ends
    rw [hahead, List.append_nil] at htokens
    exact absurd hlast (hbefore last (by rw [← htokens, hends]; simp))
  | cons t ahead => exact ⟨ahead, by simp [Stream.next, hahead]⟩

theorem next_mem (h : l.Follows s) : s.next ∈ l.tokens := by
  obtain ⟨ahead, hahead⟩ := h.exists_next
  obtain ⟨before, htokens, -⟩ := h
  rw [htokens, hahead]
  simp

/-- The token taken last, or none before the first one. -/
theorem reached_eq (h : l.Follows s) : s.reached = 0 ∨ ∃ t ∈ l.tokens,
    s.reached = t.span.stop ∧ t.span.stop ≤ s.next.span.start := by
  obtain ⟨ahead, hahead⟩ := h.exists_next
  obtain ⟨before, htokens, hbehind, -⟩ := h
  rw [Stream.reached, hbehind]
  cases hlast : before.getLast? with
  | none => exact .inl rfl
  | some t =>
    have ht := List.mem_of_getLast? hlast
    have hordered := l.lexed.ordered
    rw [htokens, hahead] at hordered
    exact .inr ⟨t, by rw [htokens]; exact List.mem_append_left _ ht, rfl,
      (List.pairwise_append.mp hordered).2.2 t ht s.next (by simp)⟩

theorem reached_le_next (h : l.Follows s) : s.reached ≤ s.next.span.start := by
  rcases h.reached_eq with h | ⟨t, -, h, hle⟩ <;> omega

theorem reached_le_length (h : l.Follows s) : s.reached ≤ l.source.length := by
  rcases h.reached_eq with h | ⟨t, ht, h, -⟩
  · omega
  · have := stop_le_length ht
    omega

theorem advance (h : l.Follows s) (hkind : s.kind ≠ .endOfInput) :
    ∃ ahead, Parse.advance s = .ok () ⟨some s.next, ahead, s.elements⟩ ∧
      l.Follows ⟨some s.next, ahead, s.elements⟩ := by
  obtain ⟨ahead, hahead⟩ := h.exists_next
  obtain ⟨before, htokens, -, hbefore⟩ := h
  rw [Stream.kind] at hkind
  generalize s.next = t at hahead hkind
  obtain ⟨b, _, els⟩ := s
  cases hahead
  refine ⟨ahead, rfl, before ++ [_], by simpa using htokens, by simp, fun t ht => ?_⟩
  rcases List.mem_append.mp ht with ht | ht
  · exact hbefore t ht
  · obtain rfl := List.mem_singleton.mp ht
    exact hkind

/-- The open elements do not count. -/
theorem of_eq (h : l.Follows s) (hbehind : s'.behind = s.behind) (hahead : s'.ahead = s.ahead) :
    l.Follows s' := by
  rwa [Follows, hbehind, hahead]

end Follows

/-- The parts that were passed need not be known. -/
theorem Passed.forget {lo : Nat} {spans : List Span} {s : Stream} (h : l.Passed lo spans s) :
    l.Passed lo [] s :=
  ⟨h.follows, .nil h.row.lt⟩

/-- What is read next comes behind what was read. -/
theorem Passed.append {lo : Nat} {spans spans' : List Span} {s s' : Stream}
    (h : l.Passed lo spans s) (h' : l.Passed s.next.span.start spans' s') :
    l.Passed lo (spans ++ spans') s' :=
  ⟨h'.follows, h.row.append h.follows.reached_le_next h'.row⟩

end Lexing

/-! ### Well-placed trees -/

/-- All parts of an expression are placed well. -/
def Expr.IsNested (l : Lexing) (e : Expr) : Prop :=
  e.every (fun e => decide (e.IsPlaced l.tokens l.source.length))
    (fun s => decide (s.IsPlaced l.tokens l.source.length)) = true

/-- All parts of a statement are placed well. -/
def Stmt.IsNested (l : Lexing) (s : Stmt) : Prop :=
  s.every (fun e => decide (e.IsPlaced l.tokens l.source.length))
    (fun s => decide (s.IsPlaced l.tokens l.source.length)) = true

variable {l : Lexing}

theorem Expr.isNested_iff {e : Expr} : e.IsNested l ↔ e.IsPlaced l.tokens l.source.length ∧
    (∀ c ∈ e.children, c.IsNested l) ∧ ∀ s ∈ e.block, s.IsNested l := by
  rw [IsNested, every_iff, decide_eq_true_iff]
  rfl

theorem Stmt.isNested_iff {s : Stmt} : s.IsNested l ↔ s.IsPlaced l.tokens l.source.length ∧
    (∀ c ∈ s.children, c.IsNested l) ∧ ∀ t ∈ s.inner, t.IsNested l := by
  rw [IsNested, every_iff, decide_eq_true_iff]
  rfl

namespace Parse

/-! ### Sequences -/

/-- From streams with `P`, a parser gives results with `φ` and streams with `Q`. -/
def Brings {α : Type} (P : Stream → Prop) (p : Parse α) (φ : α → Prop) (Q : α → Stream → Prop) :
    Prop :=
  ∀ ⦃s a s'⦄, P s → p s = .ok a s' → φ a ∧ Q a s'

namespace Brings

variable {α β : Type} {P : Stream → Prop} {p : Parse α} {φ : α → Prop} {Q : α → Stream → Prop}
variable {f : α → Parse β} {ψ : β → Prop} {R : β → Stream → Prop}

theorem pure {a : α} (ha : φ a) (h : ∀ s, P s → Q a s) : Brings P (Pure.pure a) φ Q := by
  rintro s _ _ hs ⟨⟩
  exact ⟨ha, h s hs⟩

theorem pure_bind {a : α} (h : Brings P (f a) ψ R) : Brings P (Pure.pure a >>= f) ψ R := h

theorem bind (hp : Brings P p φ Q) (hf : ∀ a, φ a → Brings (Q a) (f a) ψ R) :
    Brings P (p >>= f) ψ R := by
  intro s b s' hs h
  obtain ⟨a, s₁, h₁, h₂⟩ := bind_eq_ok.mp h
  obtain ⟨ha, hs₁⟩ := hp hs h₁
  exact hf a ha hs₁ h₂

theorem mono {P' : Stream → Prop} {φ' : α → Prop} {Q' : α → Stream → Prop} (h : Brings P p φ Q)
    (hP : ∀ s, P' s → P s) (hφ : ∀ a, φ a → φ' a) (hQ : ∀ a s, φ a → Q a s → Q' a s) :
    Brings P' p φ' Q' := by
  intro s a s' hs hp
  obtain ⟨ha, hs'⟩ := h (hP s hs) hp
  exact ⟨hφ a ha, hQ a s' ha hs'⟩

theorem pre {P' : Stream → Prop} (h : Brings P p φ Q) (hP : ∀ s, P' s → P s) : Brings P' p φ Q :=
  h.mono hP (fun _ => id) fun _ _ _ => id

theorem fail {cause : SyntaxError.Cause} : Brings P (Parse.fail cause : Parse α) φ Q :=
  fun _ _ _ _ h => (fail_ne_ok.mp h).elim

/-- Nothing comes behind a parser that never succeeds. -/
theorem of_never (h : ∀ s a s', p s ≠ .ok a s') : Brings P (p >>= f) ψ R := by
  intro s b s' _ hp
  obtain ⟨a, s₁, hp, -⟩ := bind_eq_ok.mp hp
  exact absurd hp (h s a s₁)

theorem failAt {span : Span} {cause : SyntaxError.Cause} :
    Brings P (Parse.failAt span cause : Parse α) φ Q :=
  fun _ _ _ _ h => (failAt_ne_ok.mp h).elim

theorem failExpecting {what : Expectation} :
    Brings P (Parse.failExpecting what : Parse α) φ Q :=
  fun _ _ _ _ h => (failExpecting_ne_ok.mp h).elim

/-- Looking at a stream does not change it. -/
theorem look {q : Parse α} {g : Stream → α} (hq : ∀ s, q s = .ok (g s) s)
    (h : ∀ a, Brings (fun s => P s ∧ g s = a) (f a) ψ R) : Brings P (q >>= f) ψ R := by
  intro s b s' hs hp
  rw [run_bind (hq s)] at hp
  exact h (g s) ⟨hs, rfl⟩ hp

/-- What a look showed need not be known. -/
theorem glance {q : Parse α} {g : Stream → α} (hq : ∀ s, q s = .ok (g s) s)
    (h : ∀ a, Brings P (f a) ψ R) : Brings P (q >>= f) ψ R :=
  look hq fun a => (h a).pre fun _ hs => hs.1

end Brings

/-! ### Placing -/

/-- A parser gives results with `φ`, and puts their spans in a row from its first token on. -/
def Places {α : Type} (l : Lexing) (p : Parse α) (φ : α → Prop) (parts : α → List Span) : Prop :=
  ∀ t, Brings (l.Starts t) p φ fun a => l.Passed t.span.start (parts a)

/-- A parser takes tokens and gives nothing that has a span. -/
def Skips {α : Type} (l : Lexing) (p : Parse α) : Prop := Places l p (fun _ => True) fun _ => []

section

variable {α β : Type} {p : Parse α} {φ : α → Prop} {parts : α → List Span} {t : Token}
variable {lo : Nat} {spans : List Span}

/-- What comes behind other parts is put behind them. -/
theorem Brings.next {P : Stream → Prop} {C : Kind → Prop}
    (h : ∀ t, C t.kind → Brings (l.Starts t) p φ fun a => l.Passed t.span.start (parts a))
    (hP : ∀ s, P s → l.Passed lo spans s ∧ C s.kind) :
    Brings P p φ fun a => l.Passed lo (spans ++ parts a) := by
  intro s a s' hs hp
  obtain ⟨hpassed, hkind⟩ := hP s hs
  obtain ⟨ha, hs'⟩ := h s.next hkind ⟨hpassed.follows, rfl⟩ hp
  exact ⟨ha, hpassed.append hs'⟩

theorem Places.next (h : Places l p φ parts) :
    Brings (l.Passed lo spans) p φ fun a => l.Passed lo (spans ++ parts a) :=
  .next (C := fun _ => True) (fun t _ => h t) fun _ hs => ⟨hs, trivial⟩

theorem Skips.next (h : Skips l p) :
    Brings (l.Passed lo spans) p (fun _ => True) fun _ => l.Passed lo spans := by
  have hnext : Brings (l.Passed lo spans) p _ fun _ => l.Passed lo (spans ++ []) := Places.next h
  rwa [List.append_nil] at hnext

namespace Brings

section

variable {ψ : β → Prop} {R : β → Stream → Prop}

theorem peek {f : Token → Parse β} (h : t ∈ l.tokens → Brings (l.Starts t) (f t) ψ R) :
    Brings (l.Starts t) (Parse.peek >>= f) ψ R := by
  intro s b s' hs hp
  obtain rfl := hs.next
  exact h hs.follows.next_mem hs hp

theorem peekKind {f : Kind → Parse β} (h : Brings (l.Starts t) (f t.kind) ψ R) :
    Brings (l.Starts t) (Parse.peekKind >>= f) ψ R := by
  intro s b s' hs hp
  obtain rfl := hs.next
  exact h hs hp

theorem check {k : Kind} {f : Bool → Parse β} (h : Brings (l.Starts t) (f (t.kind == k)) ψ R) :
    Brings (l.Starts t) (Parse.check k >>= f) ψ R := by
  intro s b s' hs hp
  obtain rfl := hs.next
  exact h hs hp

end

theorem forget {P : Stream → Prop} (h : Brings P p φ fun a => l.Passed lo (parts a)) :
    Brings P p (fun _ => True) fun _ => l.Passed lo [] :=
  h.mono (fun _ => id) (fun _ _ => trivial) fun _ _ _ => Lexing.Passed.forget

end Brings

/-! ### Single tokens -/

/-- Something is told by a token, but nothing by the end of the source. -/
theorem kind_ne_end {f : Kind → Option α} {k : Kind} {a : α} (hend : f .endOfInput = none)
    (ha : f k = some a) : k ≠ .endOfInput := by
  rintro rfl
  rw [hend] at ha
  cases ha

/-- A token that is taken is placed well. -/
theorem Brings.take (hkind : t.kind ≠ .endOfInput) :
    Brings (l.Starts t) advance (fun _ => t.span.IsPlaced l.tokens l.source.length [])
      fun _ => l.Passed t.span.start [t.span] := by
  intro s a s' hs hp
  obtain rfl := hs.next
  obtain ⟨ahead, hadvance, hfollows⟩ := hs.follows.advance hkind
  rw [hadvance] at hp
  cases hp
  have ht := hs.follows.next_mem
  have hlt := Lexing.start_lt_stop ht hkind
  exact ⟨Lexing.isPlaced ht (.nil hlt) (Lexing.stop_le_length ht), hfollows, .singleton hlt⟩

theorem Brings.advance (hkind : t.kind ≠ .endOfInput) :
    Brings (l.Starts t) advance (fun _ => True) fun _ => l.Passed t.span.start [] :=
  (take hkind).forget

/-- Takes a token that was seen. -/
theorem Brings.advance_seen {P : Stream → Prop}
    (h : ∀ s, P s → l.Passed lo spans s ∧ s.kind ≠ .endOfInput) :
    Brings P Parse.advance (fun _ => True) fun _ => l.Passed lo spans := by
  have hnext : Brings P Parse.advance _ fun _ => l.Passed lo (spans ++ []) :=
    .next (C := (· ≠ .endOfInput)) (fun _ => advance) h
  rwa [List.append_nil] at hnext

theorem Brings.advance_kind {k : Kind} (hk : k ≠ .endOfInput) :
    Brings (fun s => l.Passed lo spans s ∧ s.kind = k) Parse.advance (fun _ => True)
      fun _ => l.Passed lo spans :=
  .advance_seen fun _ hs => ⟨hs.1, hs.2 ▸ hk⟩

theorem Skips.expect {k : Kind} (hk : k ≠ .endOfInput) : Skips l (expect k) := by
  intro t s a s' hs hp
  obtain ⟨hkind, hadvance⟩ := expect_eq_ok hp
  refine Brings.advance ?_ hs hadvance
  rw [← hs.next]
  exact fun hend => hk (hkind.symm.trans hend)

theorem Skips.expectSymbol (m : Symbol) : Skips l (expectSymbol m) := .expect (by simp)

theorem Skips.identifier : Skips l identifier := by
  intro t
  refine .peekKind ?_
  split
  · next hkind => exact .bind (.advance (by simp [hkind])) fun _ _ => .pure trivial fun _ => id
  · exact .failExpecting

/-- A word is a single token. -/
theorem Brings.word {what : Expectation} :
    Brings (l.Starts t) (word what) (fun _ => t.span.IsPlaced l.tokens l.source.length [])
      fun _ => l.Passed t.span.start [t.span] := by
  refine .peekKind ?_
  split
  · next hword => exact .bind (.take (kind_ne_end rfl hword)) fun _ ht => .pure ht fun _ => id
  · exact .failExpecting

theorem Skips.word {what : Expectation} : Skips l (word what) := fun _ => Brings.word.forget

theorem Skips.name {what : Expectation} : Skips l (name what) := by
  intro t
  refine .peekKind ?_
  split
  · next hkind => exact .bind (.advance (by simp [hkind])) fun _ _ => .pure trivial fun _ => id
  · exact .failExpecting

namespace Brings

theorem eat {k : Kind} (hk : k ≠ .endOfInput) :
    Brings (l.Passed lo spans) (eat k) (fun _ => True) fun _ => l.Passed lo spans := by
  refine .look (run_check k) fun b => ?_
  split
  · next hb =>
    refine .bind (.advance_seen fun s hs => ⟨hs.1, ?_⟩) fun _ _ => .pure trivial fun _ => id
    have hkind : s.kind = k := by simpa [hb] using hs.2
    exact hkind ▸ hk
  · exact .pure trivial fun _ hs => hs.1

theorem semicolon :
    Brings (l.Passed lo spans) semicolon (fun _ => True) fun _ => l.Passed lo spans := by
  refine .bind (eat (by simp)) fun b _ => ?_
  split
  · exact .pure trivial fun _ => id
  · refine .glance run_peek fun t => ?_
    split
    · exact .pure trivial fun _ => id
    · exact .failExpecting

/-- A change of the open elements. -/
theorem modify {f : Stream → Stream} (hbehind : ∀ s, (f s).behind = s.behind)
    (hahead : ∀ s, (f s).ahead = s.ahead) :
    Brings (l.Passed lo spans) (modify f : Parse Unit) (fun _ => True)
      fun _ => l.Passed lo spans := by
  rintro s _ _ hs ⟨⟩
  refine ⟨trivial, hs.follows.of_eq (hbehind s) (hahead s), ?_⟩
  rw [Stream.reached, hbehind]
  exact hs.row

/-- The span of a construct that started with a token holds the parts that were read. -/
theorem spanFrom (ht : t ∈ l.tokens) :
    Brings (l.Passed t.span.start spans) (spanFrom t.span)
      (fun span => span.IsPlaced l.tokens l.source.length spans)
      fun span => l.Passed t.span.start [span] := by
  rintro s _ _ hs ⟨⟩
  have hlt := hs.row.lt
  have hspan : spanTo t.span s.behind = { t.span with stop := s.reached } := by
    cases hbehind : s.behind with
    | none => simp [Stream.reached, hbehind] at hlt
    | some u => simp [spanTo, Stream.reached, hbehind]
  change Span.IsPlaced _ _ (spanTo t.span s.behind) _ ∧ l.Passed _ [spanTo t.span s.behind] s
  rw [hspan]
  exact ⟨Lexing.isPlaced ht hs.row hs.follows.reached_le_length, hs.follows,
    .singleton (s := { t.span with stop := s.reached }) hlt⟩

/-! ### Lists -/

theorem commaList (h : Places l p φ parts) {close : Symbol} :
    Brings (l.Passed lo spans) (commaList close p) (fun as => ∀ a ∈ as, φ a)
      fun as => l.Passed lo (spans ++ as.flatMap parts) := by
  have hloop (n : Nat) (spans : List Span) :
      Brings (l.Passed lo spans) (commaList.loop close p n) (fun as => ∀ a ∈ as, φ a)
        fun as => l.Passed lo (spans ++ as.flatMap parts) := by
    induction n generalizing spans with
    | zero => exact .fail
    | succ n ih =>
      refine .glance (run_check _) fun b => ?_
      split
      · exact .pure (by simp) fun _ hs => by simpa using hs
      · refine .bind h.next fun a ha => .bind (eat (by simp)) fun b _ => ?_
        split
        · exact .bind (ih _) fun as has => .pure (by simpa [ha] using has)
            fun _ hs => by simpa using hs
        · exact .pure (by simpa using ha) fun _ hs => by simpa using hs
  exact .glance run_budget fun n => .bind (hloop n spans) fun as has =>
    .bind (Skips.expectSymbol _).next fun _ _ => .pure has fun _ => id

theorem commaItems (h : Places l p φ parts) :
    Brings (l.Passed lo spans) (commaItems p) (fun as => ∀ a ∈ as, φ a)
      fun as => l.Passed lo (spans ++ as.flatMap parts) := by
  refine .glance run_budget fun n => ?_
  induction n generalizing spans with
  | zero => exact .fail
  | succ n ih =>
    refine .bind h.next fun a ha => .bind (eat (by simp)) fun b _ => ?_
    split
    · exact .bind ih fun as has => .pure (by simpa [ha] using has) fun _ hs => by simpa using hs
    · exact .pure (by simpa using ha) fun _ hs => by simpa using hs

theorem itemsWhile_loop (h : Places l p φ parts) {goesOn : Kind → Bool} (n : Nat) :
    Brings (l.Passed lo spans) (itemsWhile.loop goesOn p n) (fun as => ∀ a ∈ as, φ a)
      fun as => l.Passed lo (spans ++ as.flatMap parts) := by
  induction n generalizing spans with
  | zero => exact .fail
  | succ n ih =>
    refine .glance run_peekKind fun k => ?_
    split
    · exact .bind h.next fun a ha => .bind ih fun as has =>
        .pure (by simpa [ha] using has) fun _ hs => by simpa using hs
    · exact .pure (by simp) fun _ hs => by simpa using hs

theorem itemsWhile (h : Places l p φ parts) {goesOn : Kind → Bool} :
    Brings (l.Passed lo spans) (itemsWhile goesOn p) (fun as => ∀ a ∈ as, φ a)
      fun as => l.Passed lo (spans ++ as.flatMap parts) :=
  .glance run_budget (itemsWhile_loop h)

/-- Items that nothing stands in front of. -/
theorem itemsWhile_first (h : Places l p φ parts) {goesOn : Kind → Bool} :
    Brings (l.Starts t) (Parse.itemsWhile goesOn p)
      (fun as => (∀ a ∈ as, φ a) ∧ (as.flatMap parts).Pairwise fun s t => s.stop ≤ t.start)
      fun _ _ => True := by
  refine .glance run_budget fun n => ?_
  cases n with
  | zero => exact .fail
  | succ n =>
    refine .peekKind ?_
    split
    · refine .bind (h t) fun a ha => .bind (itemsWhile_loop h n) fun as has => ?_
      rintro s _ _ hs ⟨⟩
      have hordered := hs.row.ordered
      rw [← List.flatMap_cons] at hordered
      exact ⟨⟨List.forall_mem_cons.mpr ⟨ha, has⟩, hordered⟩, trivial⟩
    · exact .pure ⟨List.forall_mem_nil _, .nil⟩ fun _ _ => trivial

end Brings

theorem Places.withoutElements (h : Places l p φ parts) :
    Places l (withoutElements p) φ parts := by
  intro t s a s' hs hp
  unfold Parse.withoutElements at hp
  split at hp
  · next hinner =>
    cases hp
    have hstarts : l.Starts t { s with elements := [] } := ⟨hs.follows.of_eq rfl rfl, hs.next⟩
    obtain ⟨ha, hs'⟩ := h t hstarts hinner
    exact ⟨ha, hs'.follows.of_eq rfl rfl, hs'.row⟩
  · cases hp

end

end Parse

end MarkupScript
