import MarkupScript.Proofs.Parse.Delimiters
import MarkupScript.Proofs.Parse.Placing
import MarkupScript.Proofs.Print.Parts

/-!
# Two `new` in a row

The callee of `new` is a name, a literal or something in brackets, so it never starts with `new`.
The word `new` may also be the name of a property or of something imported. Behind a dot, any word
may be such a name, and then anything may follow. Elsewhere a mark or another word follows it. So in
whatever is read, two `new` in a row only come behind a dot.

The proof goes the other way round. No parser gets past two `new` in a row: if they are ahead of it,
they are still ahead when it has succeeded.
-/

namespace MarkupScript

/-- Whether a token is `new`. -/
def Kind.isNew : Kind → Bool
  | .keyword .new_ => true
  | _ => false

/-- A token that something is told by is not `new`, if nothing is told by that. -/
theorem Kind.isNew_of_some {α : Type} {f : Kind → Option α} (hf : f (.keyword .new_) = none)
    {k : Kind} {a : α} (h : f k = some a) : k.isNew = false := by
  unfold isNew
  split
  · rw [hf] at h
    cases h
  · rfl

/-- Among tokens that follow one of the kind `before`, two `new` come in a row, and not behind a
dot. -/
def NewTwice (before : Kind) : List Kind → Prop
  | [] => False
  | k :: ks =>
    (before.isDot = false ∧ k.isNew = true ∧ ks.head?.any Kind.isNew = true) ∨ NewTwice k ks

/-- The kind of the token taken last. -/
def Stream.latest (s : Stream) : Kind := (s.behind.getD .past).kind

/-- Two `new` in a row are ahead, and not behind a dot. -/
def Stream.NewTwiceAhead (s : Stream) : Prop := NewTwice s.latest (s.ahead.map (·.kind))

/-- Two `new` in a row are ahead, or the first of them was just taken. -/
def Stream.InNewTwice (s : Stream) : Prop := s.NewTwiceAhead ∨ s.kind.isNew = true

/-- The only way into two `new` in a row is to take the first of them. -/
theorem Stream.NewTwiceAhead.advance {s s' : Stream} {a : Unit} (h : s.NewTwiceAhead)
    (hp : Parse.advance s = .ok a s') :
    s'.latest = s.kind ∧ (s'.NewTwiceAhead ∨
      s.latest.isDot = false ∧ s.kind.isNew = true ∧ s'.kind.isNew = true) := by
  obtain ⟨b, ahead, els⟩ := s
  cases ahead with
  | nil => exact h.elim
  | cons t ahead =>
    cases hp
    refine ⟨rfl, ?_⟩
    rcases h with ⟨hdot, hnew, hnext⟩ | h
    · refine .inr ⟨hdot, hnew, ?_⟩
      cases ahead with
      | nil => cases hnext
      | cons u ahead => exact hnext
    · exact .inl h

/-- The open elements do not count. -/
theorem Stream.NewTwiceAhead.of_eq {s s' : Stream} (h : s.NewTwiceAhead)
    (hbehind : s'.behind = s.behind) (hahead : s'.ahead = s.ahead) : s'.NewTwiceAhead := by
  unfold NewTwiceAhead latest at h ⊢
  rwa [hbehind, hahead]

namespace Parse

variable {α β : Type} {p : Parse α} {P : Kind → Prop}

/-- From streams whose next token has the property `P`, a parser does not get past two `new` in a
row. -/
def KeepsTwice (P : Kind → Prop) (p : Parse α) : Prop :=
  Brings (fun s => s.NewTwiceAhead ∧ P s.kind) p (fun _ => True) fun _ => Stream.NewTwiceAhead

namespace KeepsTwice

theorem anywhere (h : KeepsTwice (fun _ => True) p) : KeepsTwice P p :=
  h.pre fun _ hs => ⟨hs.1, trivial⟩

theorem ahead {C : Stream → Prop} (h : KeepsTwice (fun _ => True) p)
    (hC : ∀ s, C s → s.NewTwiceAhead) :
    Brings C p (fun _ => True) fun _ => Stream.NewTwiceAhead :=
  h.pre fun s hs => ⟨hC s hs, trivial⟩

theorem bind {f : α → Parse β} (hp : KeepsTwice P p)
    (hf : ∀ a, KeepsTwice (fun _ => True) (f a)) : KeepsTwice P (p >>= f) :=
  Brings.bind hp fun a _ => (hf a).ahead fun _ => id

theorem pure {a : α} : KeepsTwice P (Pure.pure a) := Brings.pure trivial fun _ hs => hs.1

theorem map {f : α → β} (hp : KeepsTwice P p) : KeepsTwice P (f <$> p) := by
  rw [map_eq_pure_bind]
  exact bind hp fun _ => pure

theorem fail {cause : SyntaxError.Cause} : KeepsTwice P (Parse.fail cause : Parse α) := Brings.fail

theorem failAt {span : Span} {cause : SyntaxError.Cause} :
    KeepsTwice P (Parse.failAt span cause : Parse α) := Brings.failAt

theorem failExpecting {what : Expectation} :
    KeepsTwice P (Parse.failExpecting what : Parse α) := Brings.failExpecting

/-- A change of the open elements. -/
theorem modify {f : Stream → Stream} (hbehind : ∀ s, (f s).behind = s.behind)
    (hahead : ∀ s, (f s).ahead = s.ahead) : KeepsTwice P (modify f : Parse Unit) := by
  rintro s _ _ ⟨hs, -⟩ ⟨⟩
  exact ⟨trivial, hs.of_eq (hbehind s) (hahead s)⟩

theorem withoutElements (h : KeepsTwice (fun _ => True) p) :
    KeepsTwice P (withoutElements p) := by
  intro s a s' hs hp
  unfold Parse.withoutElements at hp
  split at hp
  · next hinner =>
    cases hp
    obtain ⟨-, hs'⟩ := h (s := { s with elements := [] }) ⟨hs.1, trivial⟩ hinner
    exact ⟨trivial, hs'.of_eq rfl rfl⟩
  · cases hp

/-! ### Looking ahead -/

/-- What a look at the stream shows is still next. -/
theorem look {q : Parse α} {f : α → Parse β} {g : Stream → α} (hq : ∀ s, q s = .ok (g s) s)
    (h : ∀ s, KeepsTwice (· = s.kind) (f (g s))) : KeepsTwice P (q >>= f) := by
  intro s b s' hs hp
  rw [run_bind (hq s)] at hp
  exact h s ⟨hs.1, rfl⟩ hp

theorem peek {f : Token → Parse β} (h : ∀ t, KeepsTwice (· = t.kind) (f t)) :
    KeepsTwice P (Parse.peek >>= f) :=
  look run_peek fun s => h s.next

theorem peekKind {f : Kind → Parse β} (h : ∀ k, KeepsTwice (· = k) (f k)) :
    KeepsTwice P (Parse.peekKind >>= f) :=
  look run_peekKind fun s => h s.kind

theorem check {kind : Kind} {f : Bool → Parse β} (h : ∀ b, KeepsTwice P (f b)) :
    KeepsTwice P (Parse.check kind >>= f) :=
  Brings.glance (run_check kind) h

theorem get {f : Stream → Parse β} (h : ∀ s, KeepsTwice P (f s)) :
    KeepsTwice P (MonadState.get >>= f) :=
  Brings.glance run_get h

theorem budget {f : Nat → Parse β} (h : ∀ n, KeepsTwice P (f n)) :
    KeepsTwice P (Parse.budget >>= f) :=
  Brings.glance run_budget h

theorem spanFrom {start : Span} {f : Span → Parse β} (h : ∀ span, KeepsTwice P (f span)) :
    KeepsTwice P (Parse.spanFrom start >>= f) :=
  Brings.glance (run_spanFrom start) h

/-! ### Single tokens -/

theorem advance_latest {k : Kind} (hk : k.isNew = false) :
    Brings (fun s => s.NewTwiceAhead ∧ s.kind = k) Parse.advance (fun _ => True)
      fun _ s => s.NewTwiceAhead ∧ s.latest = k := by
  rintro s a s' ⟨hs, rfl⟩ hp
  obtain ⟨hlatest, htwice | ⟨-, hnew, -⟩⟩ := hs.advance hp
  · exact ⟨trivial, htwice, hlatest⟩
  · exact absurd hnew (Bool.eq_false_iff.mp hk)

/-- Takes a token that was seen not to be `new`. -/
theorem advance {k : Kind} (hk : k.isNew = false) : KeepsTwice (· = k) Parse.advance :=
  (advance_latest hk).mono (fun _ => id) (fun _ => id) fun _ _ _ => And.left

/-- Takes any token, also the first `new` of two. -/
theorem advance_into {k : Kind} :
    Brings (fun s => s.NewTwiceAhead ∧ s.kind = k) Parse.advance (fun _ => True)
      fun _ s => s.InNewTwice ∧ (k.isNew = false → s.NewTwiceAhead) := by
  rintro s a s' ⟨hs, rfl⟩ hp
  obtain ⟨-, htwice | ⟨-, hnew, hnext⟩⟩ := hs.advance hp
  · exact ⟨trivial, .inl htwice, fun _ => htwice⟩
  · exact ⟨trivial, .inr hnext, fun hother => absurd hnew (Bool.eq_false_iff.mp hother)⟩

/-- Between two `new`, nothing but `new` can be taken. -/
theorem eat_into {k : Kind} (hk : k.isNew = false) {f : Bool → Parse β} {C : Stream → Prop}
    {Q : β → Stream → Prop} (hC : ∀ s, C s → s.InNewTwice)
    (htrue : Brings (fun s => s.NewTwiceAhead ∧ s.latest = k) (f true) (fun _ => True) Q)
    (hfalse : Brings C (f false) (fun _ => True) Q) :
    Brings C (Parse.eat k >>= f) (fun _ => True) Q := by
  rw [Parse.eat, bind_assoc]
  refine Brings.look (run_check k) fun b => ?_
  cases b with
  | true =>
    simp only [if_true, bind_assoc, pure_bind]
    refine Brings.bind ((advance_latest hk).pre fun s hs => ?_) fun _ _ => htrue
    have hkind : s.kind = k := by simpa using hs.2
    rcases hC s hs.1 with htwice | hnew
    · exact ⟨htwice, hkind⟩
    · rw [hkind, hk] at hnew
      cases hnew
  | false => exact hfalse.pre fun _ => And.left

theorem eat {k : Kind} (hk : k.isNew = false) : KeepsTwice P (eat k) := by
  rw [← bind_pure (Parse.eat k)]
  exact eat_into hk (fun _ hs => .inl hs.1) (Brings.pure trivial fun _ => And.left) pure

/-- Between two `new`, no other mark or word can be demanded. -/
theorem expect_into {k : Kind} (hk : k.isNew = false) :
    Brings Stream.InNewTwice (Parse.expect k) (fun _ => True) fun _ => Stream.NewTwiceAhead :=
  eat_into hk (fun _ => id) (Brings.pure trivial fun _ => And.left) .failExpecting

theorem expect {k : Kind} (hk : k.isNew = false) : KeepsTwice P (expect k) :=
  (expect_into hk).pre fun _ hs => .inl hs.1

theorem expectSymbol {m : Symbol} : KeepsTwice P (expectSymbol m) := expect rfl

theorem identifier : KeepsTwice P identifier := by
  refine peekKind fun k => ?_
  split
  · exact bind (advance rfl) fun _ => pure
  · exact failExpecting

theorem name {what : Expectation} : KeepsTwice P (name what) := by
  refine peekKind fun k => ?_
  split
  · exact bind (advance rfl) fun _ => pure
  · exact failExpecting

/-- Any word may be taken, also the first `new` of two. -/
theorem word_into {what : Expectation} :
    Brings Stream.NewTwiceAhead (Parse.word what) (fun _ => True) fun _ => Stream.InNewTwice := by
  refine Brings.look run_peekKind fun k => ?_
  split
  · exact Brings.bind advance_into fun _ _ => Brings.pure trivial fun _ hs => hs.1
  · exact .failExpecting

/-- Behind a dot, a word is not the first `new` of two. -/
theorem word_behind_dot {what : Expectation} :
    Brings (fun s => s.NewTwiceAhead ∧ s.latest.isDot = true) (Parse.word what) (fun _ => True)
      fun _ => Stream.NewTwiceAhead := by
  refine Brings.glance run_peekKind fun k => ?_
  split
  · refine Brings.bind (φ := fun _ => True) ?_ fun _ _ => Brings.pure trivial fun _ => id
    rintro s a s' ⟨hs, hdot⟩ hp
    obtain ⟨-, htwice | ⟨hother, -⟩⟩ := hs.advance hp
    · exact ⟨trivial, htwice⟩
    · rw [hdot] at hother
      cases hother
  · exact .failExpecting

theorem semicolon : KeepsTwice P semicolon := by
  refine bind (eat rfl) fun b => ?_
  split
  · exact pure
  · refine peek fun t => ?_
    split
    · exact pure
    · exact failExpecting

/-! ### Lists -/

theorem itemsWhile {goesOn : Kind → Bool} (hp : KeepsTwice (fun _ => True) p) :
    KeepsTwice P (itemsWhile goesOn p) := by
  refine budget fun n => anywhere ?_
  induction n with
  | zero => exact fail
  | succ n ih =>
    refine peekKind fun k => ?_
    split
    · exact bind hp.anywhere fun _ => bind ih fun _ => pure
    · exact pure

theorem commaList_loop {close : Symbol}
    (hp : Brings Stream.NewTwiceAhead p (fun _ => True) fun _ => Stream.InNewTwice) (n : Nat) :
    Brings Stream.NewTwiceAhead (commaList.loop close p n) (fun _ => True)
      fun _ => Stream.InNewTwice := by
  induction n with
  | zero => exact .fail
  | succ n ih =>
    refine Brings.glance (run_check _) fun b => ?_
    split
    · exact Brings.pure trivial fun _ => .inl
    · refine Brings.bind hp fun a _ => eat_into rfl (fun _ => id) ?_ ?_
      · exact Brings.bind (ih.pre fun _ => And.left) fun _ _ => Brings.pure trivial fun _ => id
      · exact Brings.pure trivial fun _ => id

/-- An item may end with the first `new` of two, because neither a comma nor the closing mark
follows it then. -/
theorem commaList_into {close : Symbol}
    (hp : Brings Stream.NewTwiceAhead p (fun _ => True) fun _ => Stream.InNewTwice) :
    KeepsTwice P (commaList close p) :=
  budget fun n => Brings.bind ((commaList_loop hp n).pre fun _ => And.left) fun _ _ =>
    Brings.bind (expect_into rfl) fun _ _ => Brings.pure trivial fun _ => id

theorem commaList {close : Symbol} (hp : KeepsTwice (fun _ => True) p) :
    KeepsTwice P (commaList close p) :=
  commaList_into ((hp.ahead fun _ => id).mono (fun _ => id) (fun _ => id) fun _ _ _ => .inl)

theorem commaItems (hp : KeepsTwice (fun _ => True) p) : KeepsTwice P (commaItems p) := by
  refine budget fun n => anywhere ?_
  induction n with
  | zero => exact fail
  | succ n ih =>
    refine bind hp fun _ => bind (eat rfl) fun b => ?_
    split
    · exact bind ih fun _ => pure
    · exact pure

end KeepsTwice

end Parse

/-- The rules for the parts of a construct do not get past two `new` in a row. -/
structure Rules.KeepTwice (rules : Rules) : Prop where
  expression : Parse.KeepsTwice (fun _ => True) rules.expression
  operand : Parse.KeepsTwice (fun _ => True) rules.operand
  statement : Parse.KeepsTwice (fun _ => True) rules.statement

namespace Parse.KeepsTwice

variable {rules : Rules} {P : Kind → Prop}

/-! ### Arrow functions -/

theorem params : KeepsTwice P params := bind expectSymbol fun _ => commaList identifier

theorem block (h : rules.KeepTwice) : KeepsTwice P (block rules) :=
  bind expectSymbol fun _ => bind (itemsWhile h.statement) fun _ => bind expectSymbol fun _ => pure

theorem functionBody (h : rules.KeepTwice) : KeepsTwice P (functionBody rules) :=
  withoutElements (block h)

theorem arrow (h : rules.KeepTwice) : KeepsTwice P (arrow rules) := by
  refine peek fun t => check fun b => ?_
  have hbody (xs : List String) : KeepsTwice (fun _ => True) (do
      Parse.expectSymbol .arrow
      let body ←
        if ← Parse.check (.symbol .leftBrace) then ArrowBody.block <$> Parse.functionBody rules
        else ArrowBody.expression <$> rules.expression
      return Expr.arrow xs body (← Parse.spanFrom t.span)) := by
    refine bind expectSymbol fun _ => check fun b => ?_
    dsimp only
    split
    · exact bind (functionBody h).map fun _ => spanFrom fun _ => pure
    · exact bind h.expression.map fun _ => spanFrom fun _ => pure
  dsimp only
  split
  · exact bind params hbody
  · exact bind identifier fun _ => bind pure hbody

/-! ### Primary expressions -/

theorem arguments (h : rules.KeepTwice) : KeepsTwice P (arguments rules) :=
  bind expectSymbol fun _ => commaList h.expression

theorem array (h : rules.KeepTwice) : KeepsTwice P (array rules) :=
  peek fun _ => bind expectSymbol fun _ => bind (commaList h.expression) fun _ =>
    spanFrom fun _ => pure

/-- The key of a property may be `new`, but then a colon has to follow. -/
theorem property (h : rules.KeepTwice) : KeepsTwice P (property rules) := by
  refine peek fun t => ?_
  split
  · exact failExpecting
  · refine Brings.bind advance_into fun _ _ => eat_into rfl (fun _ => And.left) ?_ ?_
    · exact ahead (bind h.expression fun _ => pure) fun _ => And.left
    · simp only [Bool.false_eq_true, if_false]
      split
      · next hx => exact Brings.pure trivial fun _ hs => hs.2 (by rw [hx]; rfl)
      · exact .failExpecting

theorem object (h : rules.KeepTwice) : KeepsTwice P (object rules) :=
  peek fun _ => bind expectSymbol fun _ => bind (commaList (property h)) fun _ =>
    spanFrom fun _ => pure

theorem parenthesised (h : rules.KeepTwice) : KeepsTwice P (parenthesised rules) :=
  bind expectSymbol fun _ => bind h.expression fun _ => bind expectSymbol fun _ => pure

theorem isNew_of_atom? {t : Token} {e : Expr} (h : atom? t = some e) : t.kind.isNew = false :=
  Kind.isNew_of_some (f := fun k => atom? ⟨k, t.span, t.newlineBefore⟩) rfl h

theorem primary (h : rules.KeepTwice) : KeepsTwice P (primary rules) := by
  refine peek fun t => ?_
  split
  · next he => exact bind (advance (isNew_of_atom? he)) fun _ => pure
  · split
    · exact parenthesised h
    · exact array h
    · exact object h
    · exact fail

/-- No primary expression starts with `new`. -/
theorem primary_into (h : rules.KeepTwice) :
    Brings Stream.InNewTwice (Parse.primary rules) (fun _ => True)
      fun _ => Stream.NewTwiceAhead := by
  rintro s e s' (hs | hnew) hp
  · exact primary (P := fun _ => True) h ⟨hs, trivial⟩ hp
  · have hkind : s.next.kind = .keyword .new_ := by
      change s.next.kind.isNew = true at hnew
      unfold Kind.isNew at hnew
      split at hnew
      · assumption
      · cases hnew
    have hatom : atom? s.next = none := by rw [atom?, hkind]
    rw [Parse.primary, run_bind (run_peek s), hatom, hkind] at hp
    exact (fail_ne_ok.mp hp).elim

/-! ### Calls and members -/

theorem propertyName :
    Brings (fun s => s.NewTwiceAhead ∧ s.latest.isDot = true) propertyName (fun _ => True)
      fun _ => Stream.NewTwiceAhead :=
  Brings.glance run_peek fun _ => Brings.bind word_behind_dot fun _ _ =>
    Brings.pure trivial fun _ => id

theorem newCallee {start : Span} {n : Nat} {e : Expr} : KeepsTwice P (newCallee start n e) := by
  refine anywhere ?_
  induction n generalizing e with
  | zero => exact fail
  | succ n ih =>
    refine eat_into rfl (fun _ hs => .inl hs.1) ?_ (pure (a := e) (P := fun _ => True))
    refine Brings.bind (propertyName.pre ?_) fun _ _ => ahead (spanFrom fun _ => ih) fun _ => id
    rintro s ⟨hs, hdot⟩
    exact ⟨hs, by rw [hdot]; rfl⟩

theorem new (h : rules.KeepTwice) : KeepsTwice P (new rules) := by
  refine peek fun t => Brings.bind advance_into fun _ _ => Brings.glance run_budget fun n =>
    Brings.bind ((primary_into h).pre fun _ => And.left) fun e _ => ?_
  refine ahead (bind newCallee fun callee => check fun b => ?_) fun _ => id
  dsimp only
  split
  · exact bind (arguments h) fun _ => spanFrom fun _ => pure
  · exact bind pure fun _ => spanFrom fun _ => pure

/-- Takes a dot and the name behind it. -/
theorem advance_propertyName {f : Expr → Parse Expr} {k : Kind} (hk : k.isDot = true)
    (hf : ∀ e, KeepsTwice (fun _ => True) (f e)) :
    KeepsTwice (· = k) (do Parse.advance; f (← Parse.propertyName)) := by
  have hnew : k.isNew = false := by
    unfold Kind.isNew
    split
    · cases hk
    · rfl
  refine Brings.bind (advance_latest hnew) fun _ _ => Brings.bind (propertyName.pre ?_) fun e _ =>
    ahead (hf e) fun _ => id
  rintro s ⟨hs, rfl⟩
  exact ⟨hs, hk⟩

theorem chain (h : rules.KeepTwice) {start : Span} {n : Nat} {e : Expr} :
    KeepsTwice P (chain rules start n e) := by
  refine anywhere ?_
  induction n generalizing e with
  | zero => exact fail
  | succ n ih =>
    refine peekKind fun k => ?_
    split
    · exact advance_propertyName rfl fun _ => spanFrom fun _ => ih
    · exact advance_propertyName rfl fun _ => spanFrom fun _ => ih
    · exact bind (advance rfl) fun _ => bind h.expression fun _ => bind expectSymbol fun _ =>
        spanFrom fun _ => ih
    · exact bind (arguments h) fun _ => spanFrom fun _ => ih
    · exact pure

theorem callMember (h : rules.KeepTwice) : KeepsTwice P (callMember rules) := by
  refine peek fun t => check fun b => ?_
  dsimp only
  split
  · exact bind (new h) fun _ => budget fun _ => chain h
  · exact bind (primary h) fun _ => budget fun _ => chain h

/-! ### Operators -/

/-- A check of the target takes nothing, so that the next token stays what it was. -/
theorem checkUpdateTarget {e : Expr} {f : Unit → Parse Expr} (h : KeepsTwice P (f ())) :
    KeepsTwice P (Parse.checkUpdateTarget e >>= f) := by
  unfold Parse.checkUpdateTarget
  split
  · exact h
  · exact Brings.of_never fun _ _ _ => fail_ne_ok.mp

theorem postfixed (h : rules.KeepTwice) : KeepsTwice P (postfixed rules) := by
  refine peek fun _ => bind (callMember h) fun e => peek fun t => ?_
  split
  · exact pure
  · split
    · exact pure
    · next hop =>
      exact checkUpdateTarget (bind (advance (Kind.isNew_of_some rfl hop)) fun _ =>
        spanFrom fun _ => pure)

theorem operand (h : rules.KeepTwice) : KeepsTwice P (operand rules) := by
  refine peek fun _ => peekKind fun k => ?_
  split
  · next hop =>
    exact bind (advance (Kind.isNew_of_some rfl hop)) fun _ => bind h.operand fun _ =>
      spanFrom fun _ => pure
  · next hop =>
    exact bind (advance (Kind.isNew_of_some rfl hop)) fun _ => bind h.operand fun _ =>
      checkUpdateTarget (spanFrom fun _ => pure)
  · exact postfixed h

theorem operators {right : Nat → Parse Expr} (h : ∀ k, KeepsTwice (fun _ => True) (right k))
    {start : Span} {least n : Nat} {e : Expr} :
    KeepsTwice P (operators right start least n e) := by
  refine anywhere ?_
  induction n generalizing e with
  | zero => exact fail
  | succ n ih =>
    refine peekKind fun k => ?_
    split
    · exact pure
    · next hop =>
      split
      · exact pure
      · exact bind (advance (Kind.isNew_of_some rfl hop)) fun _ => bind (h _) fun _ =>
          spanFrom fun _ => ih

theorem climb (h : rules.KeepTwice) {levels least : Nat} :
    KeepsTwice P (climb rules levels least) := by
  induction levels generalizing least P with
  | zero => exact operand h
  | succ levels ih =>
    exact peek fun _ => bind (operand h) fun _ => budget fun _ => operators fun _ => ih

theorem conditional (h : rules.KeepTwice) : KeepsTwice P (conditional rules) := by
  refine peek fun _ => bind (climb h) fun test => bind (eat rfl) fun b => ?_
  split
  · exact bind h.expression fun _ => bind expectSymbol fun _ => bind h.expression fun _ =>
      spanFrom fun _ => pure
  · exact pure

theorem expression (h : rules.KeepTwice) : KeepsTwice P (expression rules) := by
  refine get fun s => ?_
  split
  · exact arrow h
  · refine peek fun _ => bind (conditional h) fun target => peekKind fun k => ?_
    split
    · exact pure
    · next hop =>
      split
      · exact bind (advance (Kind.isNew_of_some rfl hop)) fun _ => bind h.expression fun _ =>
          spanFrom fun _ => pure
      · exact Brings.of_never fun _ _ _ => fail_ne_ok.mp

/-! ### Markup -/

theorem tagAttribute (h : rules.KeepTwice) : KeepsTwice P (tagAttribute rules) := by
  refine bind name fun x => bind (eat rfl) fun b => ?_
  split
  · refine peekKind fun k => ?_
    split
    · exact bind (advance rfl) fun _ => pure
    · exact bind (advance rfl) fun _ => bind h.expression fun _ => bind expectSymbol fun _ => pure
    · exact fail
  · exact pure

theorem startTag (h : rules.KeepTwice) {start : Span} {x : String} :
    KeepsTwice P (startTag rules start x) := by
  refine bind (itemsWhile (tagAttribute h)) fun _ => bind (eat rfl) fun b => ?_
  split
  · exact bind expectSymbol fun _ => spanFrom fun _ => pure
  · exact bind expectSymbol fun _ => bind (modify (fun _ => rfl) fun _ => rfl) fun _ =>
      spanFrom fun _ => pure

theorem endTag {start : Span} : KeepsTwice P (endTag start) := by
  refine bind name fun x => bind expectSymbol fun _ => get fun s => ?_
  split
  · exact failAt
  · exact bind (modify (fun _ => rfl) fun _ => rfl) fun _ => spanFrom fun _ => pure

theorem tag (h : rules.KeepTwice) : KeepsTwice P (tag rules) := by
  refine peek fun _ => bind expectSymbol fun _ => peekKind fun k => ?_
  split
  · exact bind (advance rfl) fun _ => startTag h
  · exact bind (advance rfl) fun _ => endTag
  · exact failExpecting

theorem decorator (h : rules.KeepTwice) : KeepsTwice P (decorator rules) := by
  refine peek fun _ => bind expectSymbol fun _ => bind h.expression fun e => ?_
  split
  · exact failAt
  · exact bind (eat rfl) fun _ => spanFrom fun _ => pure

/-! ### Declarations -/

theorem declarator (h : rules.KeepTwice) : KeepsTwice P (declarator rules) := by
  refine bind identifier fun x => bind (eat rfl) fun b => ?_
  split
  · exact bind (expression h) fun _ => pure
  · exact pure

theorem declaration (h : rules.KeepTwice) {kind : VariableKind} {k : Kind}
    (hk : k.isNew = false) : KeepsTwice (· = k) (declaration rules kind) :=
  bind (advance hk) fun _ => bind (commaItems (declarator h)) fun _ => pure

theorem declarationStatement (h : rules.KeepTwice) {kind : VariableKind} {k : Kind}
    (hk : k.isNew = false) : KeepsTwice (· = k) (declarationStatement rules kind) :=
  bind (declaration h hk) fun _ => bind semicolon fun _ => pure

theorem function (h : rules.KeepTwice) : KeepsTwice P (function rules) :=
  bind (expect rfl) fun _ => bind identifier fun _ => bind params fun _ =>
    bind (functionBody h) fun _ => pure

/-- An imported name may be `new`, but then `as`, a comma or a brace has to follow. -/
theorem importSpecifier :
    Brings Stream.NewTwiceAhead importSpecifier (fun _ => True) fun _ => Stream.InNewTwice := by
  refine Brings.bind word_into fun x _ => eat_into rfl (fun _ => id) ?_ ?_
  · exact (ahead (bind identifier fun _ => pure) fun _ => And.left).mono (fun _ => id) (fun _ => id)
      fun _ _ _ => .inl
  · exact Brings.pure trivial fun _ => id

theorem importSpecifiers : KeepsTwice P importSpecifiers :=
  bind expectSymbol fun _ => commaList_into importSpecifier

theorem importSource {defaultName : Option String} {xs : List ImportSpecifier} :
    KeepsTwice P (importSource defaultName xs) := by
  refine bind (eat rfl) fun b => ?_
  split
  · refine peekKind fun k => ?_
    split
    · exact bind (advance rfl) fun _ => bind semicolon fun _ => pure
    · exact failExpecting
  · exact Brings.of_never fun _ _ _ => failExpecting_ne_ok.mp

section

variable {k : Kind} (hk : k.isNew = false)
include hk

theorem import_ : KeepsTwice (· = k) import_ := by
  refine bind (advance hk) fun _ => peekKind fun k => ?_
  split
  · exact bind (advance rfl) fun _ => bind semicolon fun _ => pure
  · refine bind (advance rfl) fun _ => bind (eat rfl) fun b => ?_
    dsimp only
    split
    · exact bind importSpecifiers fun _ => importSource
    · exact bind pure fun _ => importSource
  · exact bind importSpecifiers fun _ => importSource

theorem export_ (h : rules.KeepTwice) : KeepsTwice (· = k) (export_ rules) := by
  refine bind (advance hk) fun _ => peekKind fun k => ?_
  split
  · exact bind (function h) fun _ => pure
  · split
    · next hkind =>
      exact bind (declarationStatement h (Kind.isNew_of_some rfl hkind)) fun _ => pure
    · exact failExpecting

/-! ### Control flow -/

theorem return_ (h : rules.KeepTwice) : KeepsTwice (· = k) (return_ rules) := by
  refine bind (advance hk) fun _ => peek fun t => ?_
  split
  · exact bind semicolon fun _ => pure
  · exact bind (expression h) fun _ => bind semicolon fun _ => pure

theorem if_ (h : rules.KeepTwice) : KeepsTwice (· = k) (if_ rules) := by
  refine bind (advance hk) fun _ => bind (parenthesised h) fun _ => bind h.statement fun _ =>
    bind (eat rfl) fun b => ?_
  split
  · exact bind h.statement fun _ => pure
  · exact pure

theorem while_ (h : rules.KeepTwice) : KeepsTwice (· = k) (while_ rules) :=
  bind (advance hk) fun _ => bind (parenthesised h) fun _ => bind h.statement fun _ => pure

theorem wordStatement {st : Stmt} : KeepsTwice (· = k) (wordStatement st) :=
  bind (advance hk) fun _ => bind semicolon fun _ => pure

end

theorem forInit (h : rules.KeepTwice) : KeepsTwice P (forInit rules) := by
  refine peekKind fun k => ?_
  split
  · exact pure
  · split
    · next hkind => exact bind (declaration h (Kind.isNew_of_some rfl hkind)) fun _ => pure
    · exact bind (expression h) fun _ => pure

theorem expressionBefore (h : rules.KeepTwice) {stop : Symbol} :
    KeepsTwice P (expressionBefore rules stop) := by
  refine check fun b => ?_
  split
  · exact pure
  · exact bind (expression h) fun _ => pure

theorem for_ (h : rules.KeepTwice) {k : Kind} (hk : k.isNew = false) :
    KeepsTwice (· = k) (for_ rules) :=
  bind (advance hk) fun _ => bind expectSymbol fun _ => bind (forInit h) fun _ =>
    bind expectSymbol fun _ => bind (expressionBefore h) fun _ => bind expectSymbol fun _ =>
    bind (expressionBefore h) fun _ => bind expectSymbol fun _ => bind h.statement fun _ => pure

theorem expressionStatement (h : rules.KeepTwice) : KeepsTwice P (expressionStatement rules) :=
  bind (expression h) fun _ => bind semicolon fun _ => pure

theorem statement (h : rules.KeepTwice) : KeepsTwice P (statement rules) := by
  refine peekKind fun k => ?_
  split
  · exact tag h
  · exact decorator h
  · exact bind (block h) fun _ => pure
  · exact bind (advance rfl) fun _ => pure
  · exact declarationStatement h rfl
  · exact declarationStatement h rfl
  · exact declarationStatement h rfl
  · exact function h
  · exact return_ rfl h
  · exact if_ rfl h
  · exact while_ rfl h
  · exact for_ h rfl
  · exact wordStatement rfl
  · exact wordStatement rfl
  · exact import_ rfl
  · exact export_ rfl h
  · exact expressionStatement h

end Parse.KeepsTwice

/-! ### Tying the rules together -/

theorem Rules.keepTwice_nested (n : Nat) : (Rules.nested n).KeepTwice := by
  induction n with
  | zero => exact ⟨.fail, .fail, .fail⟩
  | succ n ih => exact ⟨.expression ih, .operand ih, .statement ih⟩

namespace Parse

theorem anyExpression_keepsTwice : KeepsTwice (fun _ => True) anyExpression :=
  fun s => (Rules.keepTwice_nested (s.ahead.length + 1)).expression (s := s)

/-- Behind what is read up to the end of a source there is nothing more, so no two `new`. -/
theorem KeepsTwice.not_newTwice {α : Type} {p : Parse α} (hkeeps : KeepsTwice (fun _ => True) p)
    (htakes : Takes (fun _ => True) [] p []) {source : String} {tokens : List Token}
    (htokens : tokenize source = .ok tokens) {a : α} {s : Stream}
    (hp : p (.ofTokens tokens) = .ok a s) (hstop : s.kind = .endOfInput) :
    ¬NewTwice .endOfInput (tokens.map (·.kind)) := by
  intro htwice
  obtain ⟨-, hahead⟩ := hkeeps (s := .ofTokens tokens) ⟨htwice, trivial⟩ hp
  obtain ⟨taken, htaken, -⟩ := htakes trivial hp
  obtain ⟨front, last, rfl, -, -, -, hfront⟩ := (lexed_of_tokenize htokens).ends
  unfold Stream.NewTwiceAhead at hahead
  rcases taken_of_ends htaken hfront hstop with ⟨-, hrest⟩ | ⟨-, hrest⟩
  · rw [hrest] at hahead
    exact hahead
  · rw [hrest] at hahead
    simp [NewTwice] at hahead

end Parse

end MarkupScript
