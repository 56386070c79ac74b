import MarkupScript.Proofs.Parse.Run
import MarkupScript.Proofs.Token.Matched

/-!
# What parsers take

`Takes P marks p marks'` says what the parser `p` takes from a stream whose next token has the
property `P`: if the marks `marks` are open before, each closing mark that it takes closes its own
opening mark, and `marks'` are open behind. Parts of a construct may open marks that others close.
Where the mark of a decorator is taken, a decorator is read.
-/

namespace MarkupScript

/-- The marks that are open behind a token that is taken by itself, as the mark of a decorator never
is. -/
def Kind.take? (marks : List Symbol) : Kind → Option (List Symbol)
  | .symbol .decorator => none
  | k => k.close? marks

/-- Whether a token is neither an opening nor a closing mark nor that of a decorator. -/
def Kind.isCommon : Kind → Bool
  | .symbol .decorator => false
  | k => k.isPlain

theorem Kind.take?_eq_some {marks marks' : List Symbol} {k : Kind}
    (h : k.take? marks = some marks') :
    k.close? marks = some marks' ∧ k ≠ .symbol .decorator := by
  unfold take? at h
  split at h
  · cases h
  · next hne => exact ⟨h, hne⟩

theorem Kind.take?_of_isCommon {marks : List Symbol} {k : Kind} (h : k.isCommon = true) :
    k.take? marks = some marks := by
  unfold isCommon at h
  split at h
  · cases h
  · next hne =>
    unfold take?
    split
    · exact absurd rfl hne
    · exact Kind.close?_of_isPlain h

/-- A token that something is told by is common, if nothing is told by the marks that are not. -/
theorem Kind.isCommon_of_some {α : Type} {f : Kind → Option α}
    (hf : ∀ m ∈ [Symbol.leftParen, .rightParen, .leftBracket, .rightBracket, .leftBrace,
      .rightBrace, .tagStart, .tagEnd, .decorator], f (.symbol m) = none)
    {k : Kind} {a : α} (h : f k = some a) : k.isCommon = true := by
  cases k with
  | symbol m =>
    cases m
    case leftParen | rightParen | leftBracket | rightBracket | leftBrace | rightBrace | tagStart |
        tagEnd | decorator =>
      rw [hf _ (by decide)] at h
      cases h
    all_goals rfl
  | _ => rfl

namespace Parse

variable {α β : Type} {p : Parse α} {P : Kind → Prop} {marks middle marks' : List Symbol}

/-- A decorator is read from the front of the tokens by rules of some depth. -/
def IsDecorated (ahead : List Token) : Prop :=
  ∃ n b els st s', decorator (.nested n) ⟨b, ahead, els⟩ = .ok st s'

/-- Each mark of a decorator among the tokens taken starts a decorator. -/
def StartDecorators : (taken rest : List Token) → Prop
  | [], _ => True
  | t :: taken, rest =>
    (t.kind = .symbol .decorator → IsDecorated (t :: (taken ++ rest))) ∧ StartDecorators taken rest

theorem startDecorators_append {taken taken' rest : List Token} :
    StartDecorators (taken ++ taken') rest ↔
      StartDecorators taken (taken' ++ rest) ∧ StartDecorators taken' rest := by
  induction taken with
  | nil => simp [StartDecorators]
  | cons t taken ih => simp [StartDecorators, ih, and_assoc]

/-- What a parser takes leads from some open marks to others, and the decorators in it are read. -/
def Takes (P : Kind → Prop) (marks : List Symbol) (p : Parse α) (marks' : List Symbol) : Prop :=
  ∀ ⦃s a s'⦄, P s.kind → p s = .ok a s' →
    ∃ taken, s.ahead = taken ++ s'.ahead ∧ closeMarks? marks taken = some marks' ∧
      StartDecorators taken s'.ahead

namespace Takes

/-- A parser of which this is known whatever token comes next. -/
theorem anywhere (h : Takes (fun _ => True) marks p marks') : Takes P marks p marks' :=
  fun _ _ _ _ hp => h trivial hp

theorem bind {f : α → Parse β} (hp : Takes P marks p middle)
    (hf : ∀ a, Takes (fun _ => True) middle (f a) marks') : Takes P marks (p >>= f) marks' := by
  intro s b s' hs h
  obtain ⟨a, s₁, h₁, h₂⟩ := bind_eq_ok.mp h
  obtain ⟨taken, htaken, hmarks, hdecorators⟩ := hp hs h₁
  obtain ⟨taken', htaken', hmarks', hdecorators'⟩ := hf a trivial h₂
  rw [htaken'] at hdecorators
  exact ⟨taken ++ taken', by rw [htaken, htaken', List.append_assoc],
    closeMarks?_append.mpr ⟨middle, hmarks, hmarks'⟩,
    startDecorators_append.mpr ⟨hdecorators, hdecorators'⟩⟩

theorem pure {a : α} : Takes P marks (Pure.pure a) marks := by
  intro s b s' _ h
  obtain ⟨-, rfl⟩ := pure_eq_ok.mp h
  exact ⟨[], rfl, rfl, trivial⟩

theorem map {f : α → β} (hp : Takes P marks p marks') : Takes P marks (f <$> p) marks' := by
  intro s b s' hs h
  obtain ⟨a, ha, -⟩ := map_eq_ok.mp h
  exact hp hs ha

theorem fail {cause : SyntaxError.Cause} : Takes P marks (Parse.fail cause : Parse α) marks' :=
  fun _ _ _ _ h => (fail_ne_ok.mp h).elim

/-- Nothing comes behind a parser that never succeeds. -/
theorem of_never {f : α → Parse β} (h : ∀ s a s', p s ≠ .ok a s') :
    Takes P marks (p >>= f) marks' := by
  intro s b s' _ hp
  obtain ⟨a, s₁, hp, -⟩ := bind_eq_ok.mp hp
  exact absurd hp (h s a s₁)

theorem failAt {span : Span} {cause : SyntaxError.Cause} :
    Takes P marks (Parse.failAt span cause : Parse α) marks' :=
  fun _ _ _ _ h => (failAt_ne_ok.mp h).elim

theorem failExpecting {what : Expectation} :
    Takes P marks (Parse.failExpecting what : Parse α) marks' :=
  fun _ _ _ _ h => (failExpecting_ne_ok.mp h).elim

/-- A change of the open elements takes nothing. -/
theorem modify {f : Stream → Stream} (h : ∀ s, (f s).ahead = s.ahead) :
    Takes P marks (modify f : Parse Unit) marks := by
  rintro s _ _ _ ⟨⟩
  exact ⟨[], (h s).symm, rfl, trivial⟩

theorem withoutElements (h : Takes (fun _ => True) marks p marks') :
    Takes P marks (withoutElements p) marks' := by
  intro s a s' _ hp
  unfold Parse.withoutElements at hp
  split at hp
  · next hinner =>
    cases hp
    obtain ⟨taken, htaken, hmarks, hdecorators⟩ := h trivial hinner
    exact ⟨taken, htaken, hmarks, hdecorators⟩
  · cases hp

/-! ### Looking ahead -/

/-- What a look at the stream shows is still next. -/
theorem look {q : Parse α} {f : α → Parse β} {g : Stream → α} (hq : ∀ s, q s = .ok (g s) s)
    (h : ∀ s, P s.kind → Takes (· = s.kind) marks (f (g s)) marks') :
    Takes P marks (q >>= f) marks' := by
  intro s b s' hs hp
  rw [run_bind (hq s)] at hp
  exact h s hs rfl hp

theorem peek {f : Token → Parse β}
    (h : ∀ t, P t.kind → Takes (· = t.kind) marks (f t) marks') :
    Takes P marks (Parse.peek >>= f) marks' :=
  look run_peek fun s hs => h s.next hs

theorem peekKind {f : Kind → Parse β} (h : ∀ k, P k → Takes (· = k) marks (f k) marks') :
    Takes P marks (Parse.peekKind >>= f) marks' :=
  look run_peekKind fun s hs => h s.kind hs

theorem check {kind : Kind} {f : Bool → Parse β}
    (h : ∀ k, P k → Takes (· = k) marks (f (k == kind)) marks') :
    Takes P marks (Parse.check kind >>= f) marks' :=
  look (run_check kind) fun s hs => h s.kind hs

theorem get {f : Stream → Parse β} (h : ∀ s, Takes P marks (f s) marks') :
    Takes P marks (MonadState.get >>= f) marks' :=
  fun s _ _ hs hp => h s hs hp

theorem budget {f : Nat → Parse β} (h : ∀ n, Takes P marks (f n) marks') :
    Takes P marks (Parse.budget >>= f) marks' :=
  fun s _ _ hs hp => h (s.ahead.length + 1) hs hp

theorem spanFrom {start : Span} {f : Span → Parse β} (h : ∀ span, Takes P marks (f span) marks') :
    Takes P marks (Parse.spanFrom start >>= f) marks' :=
  fun s _ _ hs hp => h (spanTo start s.behind) hs hp

/-! ### Single tokens -/

/-- Takes the token that was seen. Behind the last token there is nothing to take, and the end of
input that shows there is plain. -/
theorem advance_seen {k : Kind} (h : k.take? marks = some marks') :
    Takes (· = k) marks Parse.advance marks' := by
  rintro ⟨b, ahead, els⟩ a s' rfl hp
  cases ahead with
  | nil =>
    cases hp
    cases h
    exact ⟨[], rfl, rfl, trivial⟩
  | cons t ahead =>
    cases hp
    obtain ⟨hclose, hne⟩ := Kind.take?_eq_some h
    exact ⟨[t], rfl, closeMarks?_cons.mpr ⟨marks', hclose, rfl⟩, fun ht => absurd ht hne, trivial⟩

theorem advance_common {k : Kind} (h : k.isCommon = true) :
    Takes (· = k) marks Parse.advance marks :=
  advance_seen (Kind.take?_of_isCommon h)

theorem eat {k : Kind} (hk : k.isCommon = true) : Takes P marks (eat k) marks := by
  refine check fun k' _ => ?_
  split
  · next heq =>
    obtain rfl : k' = k := by simpa using heq
    exact bind (advance_common hk) fun _ => pure
  · exact pure

/-- Unlike other parsers of one token, this one also takes opening and closing marks. -/
theorem expect {k : Kind} (hk : k.take? marks = some marks') :
    Takes P marks (expect k) marks' := by
  intro s a s' _ hp
  obtain ⟨hkind, hadvance⟩ := expect_eq_ok hp
  exact advance_seen hk hkind hadvance

theorem expectSymbol {m : Symbol} (hm : (Kind.symbol m).take? marks = some marks') :
    Takes P marks (expectSymbol m) marks' :=
  expect hm

theorem identifier : Takes P marks identifier marks := by
  refine peekKind fun k _ => ?_
  split
  · exact bind (advance_seen rfl) fun _ => pure
  · exact failExpecting

theorem word {what : Expectation} : Takes P marks (word what) marks := by
  refine peekKind fun k _ => ?_
  split
  · next hx => exact bind (advance_common (Kind.isCommon_of_some (by decide) hx)) fun _ => pure
  · exact failExpecting

theorem name {what : Expectation} : Takes P marks (name what) marks := by
  refine peekKind fun k _ => ?_
  split
  · exact bind (advance_seen rfl) fun _ => pure
  · exact failExpecting

theorem semicolon : Takes P marks semicolon marks := by
  refine bind (eat rfl) fun b => ?_
  split
  · exact pure
  · refine peek fun t _ => ?_
    split
    · exact pure
    · exact failExpecting

/-! ### Lists -/

theorem itemsWhile {goesOn : Kind → Bool} (hp : Takes (fun _ => True) marks p marks) :
    Takes P marks (itemsWhile goesOn p) marks := by
  refine budget fun n => anywhere ?_
  induction n with
  | zero => exact fail
  | succ n ih =>
    refine peekKind fun k _ => ?_
    split
    · exact bind hp.anywhere fun _ => bind ih fun _ => pure
    · exact pure

theorem commaList_loop {close : Symbol} (hp : Takes (fun _ => True) marks p marks) (n : Nat) :
    Takes (fun _ => True) marks (commaList.loop close p n) marks := by
  induction n with
  | zero => exact fail
  | succ n ih =>
    refine check fun k _ => ?_
    split
    · exact pure
    · refine bind hp.anywhere fun _ => bind (eat rfl) fun b => ?_
      split
      · exact bind ih fun _ => pure
      · exact pure

/-- The closing mark is taken with the items. -/
theorem commaList {close m : Symbol} (hclose : close.opener? = some m)
    (hp : Takes (fun _ => True) (m :: marks) p (m :: marks)) :
    Takes P (m :: marks) (commaList close p) marks := by
  have hmark : (Kind.symbol close).take? (m :: marks) = some marks := by
    cases close <;> cases hclose <;> rfl
  exact budget fun n =>
    anywhere (bind (commaList_loop hp n) fun _ => bind (expectSymbol hmark) fun _ => pure)

theorem commaItems (hp : Takes (fun _ => True) marks p marks) :
    Takes P marks (commaItems p) marks := by
  refine budget fun n => anywhere ?_
  induction n with
  | zero => exact fail
  | succ n ih =>
    refine bind hp fun _ => bind (eat rfl) fun b => ?_
    split
    · exact bind ih fun _ => pure
    · exact pure

end Takes

end Parse

/-- The rules for the parts of a construct close what they open, and are those of some depth as far
as decorators go. -/
structure Rules.Close (rules : Rules) : Prop where
  expression : ∀ marks, Parse.Takes (fun _ => True) marks rules.expression marks
  operand : ∀ marks, Parse.Takes (fun _ => True) marks rules.operand marks
  statement : ∀ marks, Parse.Takes (fun _ => True) marks rules.statement marks
  isDecorated : ∀ ⦃s st s'⦄, Parse.decorator rules s = .ok st s' → Parse.IsDecorated s.ahead

namespace Parse.Takes

variable {rules : Rules} {P : Kind → Prop} {marks : List Symbol}

/-! ### Arrow functions -/

theorem params : Takes P marks params marks :=
  bind (expectSymbol rfl) fun _ => commaList rfl identifier

theorem block (h : rules.Close) : Takes P marks (block rules) marks :=
  bind (expectSymbol rfl) fun _ => bind (itemsWhile (h.statement _)) fun _ =>
    bind (expectSymbol rfl) fun _ => pure

theorem functionBody (h : rules.Close) : Takes P marks (functionBody rules) marks :=
  withoutElements (block h)

theorem arrow (h : rules.Close) : Takes P marks (arrow rules) marks := by
  refine peek fun t _ => check fun k _ => ?_
  have hbody (xs : List String) : Takes (fun _ => True) marks (do
      Parse.expectSymbol .arrow
      let body ←
        if ← Parse.check (.symbol .leftBrace) then ArrowBody.block <$> Parse.functionBody rules
        else ArrowBody.expression <$> rules.expression
      return Expr.arrow xs body (← Parse.spanFrom t.span)) marks := by
    refine bind (expectSymbol rfl) fun _ => check fun k _ => ?_
    dsimp only
    split
    · exact bind (functionBody h).map fun _ => spanFrom fun _ => pure
    · exact bind (h.expression _).anywhere.map fun _ => spanFrom fun _ => pure
  dsimp only
  split
  · exact bind params hbody
  · exact bind identifier fun _ => bind pure hbody

/-! ### Primary expressions -/

theorem arguments (h : rules.Close) : Takes P marks (arguments rules) marks :=
  bind (expectSymbol rfl) fun _ => commaList rfl (h.expression _)

theorem array (h : rules.Close) : Takes P marks (array rules) marks :=
  peek fun _ _ => bind (expectSymbol rfl) fun _ => bind (commaList rfl (h.expression _)) fun _ =>
    spanFrom fun _ => pure

theorem property (h : rules.Close) : Takes P marks (property rules) marks := by
  refine peek fun t _ => ?_
  split
  · exact failExpecting
  · next hkey =>
    refine bind (advance_common (Kind.isCommon_of_some (by decide) hkey)) fun _ =>
      bind (eat rfl) fun b => ?_
    split
    · exact bind (h.expression _) fun _ => pure
    · split
      · exact pure
      · exact failExpecting

theorem object (h : rules.Close) : Takes P marks (object rules) marks :=
  peek fun _ _ => bind (expectSymbol rfl) fun _ => bind (commaList rfl (property h)) fun _ =>
    spanFrom fun _ => pure

theorem parenthesised (h : rules.Close) : Takes P marks (parenthesised rules) marks :=
  bind (expectSymbol rfl) fun _ => bind (h.expression _) fun _ => bind (expectSymbol rfl) fun _ =>
    pure

theorem isCommon_of_atom? {t : Token} {e : Expr} (h : atom? t = some e) :
    t.kind.isCommon = true :=
  Kind.isCommon_of_some (f := fun k => atom? ⟨k, t.span, t.newlineBefore⟩) (by simp [atom?]) h

theorem primary (h : rules.Close) : Takes P marks (primary rules) marks := by
  refine peek fun t _ => ?_
  split
  · next he => exact bind (advance_common (isCommon_of_atom? he)) fun _ => pure
  · split
    · exact parenthesised h
    · exact array h
    · exact object h
    · exact fail

/-! ### Calls and members -/

theorem propertyName : Takes P marks propertyName marks :=
  peek fun _ _ => bind word fun _ => pure

theorem newCallee {start : Span} {n : Nat} {e : Expr} :
    Takes P marks (newCallee start n e) marks := by
  refine anywhere ?_
  induction n generalizing e with
  | zero => exact fail
  | succ n ih =>
    refine bind (eat rfl) fun b => ?_
    split
    · exact bind propertyName fun _ => spanFrom fun _ => ih
    · exact pure

/-- The word `new` was seen. -/
theorem new (h : rules.Close) : Takes (· = .keyword .new_) marks (new rules) marks := by
  refine peek fun t ht => ?_
  rw [ht]
  refine bind (advance_seen rfl) fun _ => budget fun n => bind (primary h) fun e =>
    bind newCallee fun callee => check fun k _ => ?_
  dsimp only
  split
  · exact bind (arguments h) fun _ => spanFrom fun _ => pure
  · exact bind pure fun _ => spanFrom fun _ => pure

theorem chain (h : rules.Close) {start : Span} {n : Nat} {e : Expr} :
    Takes P marks (chain rules start n e) marks := by
  refine anywhere ?_
  induction n generalizing e with
  | zero => exact fail
  | succ n ih =>
    refine peekKind fun k _ => ?_
    split
    · exact bind (advance_seen rfl) fun _ => bind propertyName fun _ => spanFrom fun _ => ih
    · exact bind (advance_seen rfl) fun _ => bind propertyName fun _ => spanFrom fun _ => ih
    · exact bind (advance_seen rfl) fun _ => bind (h.expression _) fun _ =>
        bind (expectSymbol rfl) fun _ => spanFrom fun _ => ih
    · exact bind (arguments h) fun _ => spanFrom fun _ => ih
    · exact pure

theorem callMember (h : rules.Close) : Takes P marks (callMember rules) marks := by
  refine peek fun t _ => check fun k _ => ?_
  dsimp only
  split
  · next hnew =>
    obtain rfl : k = .keyword .new_ := by simpa using hnew
    exact bind (new h) fun _ => budget fun _ => chain h
  · exact bind (primary h) fun _ => budget fun _ => chain h

/-! ### Operators -/

/-- A check of the target takes nothing, so that the next token stays what it was. -/
theorem checkUpdateTarget {e : Expr} {f : Unit → Parse Expr} (h : Takes P marks (f ()) marks) :
    Takes P marks (Parse.checkUpdateTarget e >>= f) marks := by
  unfold Parse.checkUpdateTarget
  split
  · exact h
  · exact of_never fun _ _ _ => fail_ne_ok.mp

theorem postfixed (h : rules.Close) : Takes P marks (postfixed rules) marks := by
  refine peek fun _ _ => bind (callMember h) fun e => peek fun t _ => ?_
  split
  · exact pure
  · split
    · exact pure
    · next hop =>
      exact checkUpdateTarget (bind (advance_common (Kind.isCommon_of_some (by decide) hop)) fun _ =>
        spanFrom fun _ => pure)

theorem operand (h : rules.Close) : Takes P marks (operand rules) marks := by
  refine peek fun _ _ => peekKind fun k _ => ?_
  split
  · next hop =>
    exact bind (advance_common (Kind.isCommon_of_some (by decide) hop)) fun _ =>
      bind (h.operand _) fun _ => spanFrom fun _ => pure
  · next hop =>
    exact bind (advance_common (Kind.isCommon_of_some (by decide) hop)) fun _ =>
      bind (h.operand _) fun _ => checkUpdateTarget (spanFrom fun _ => pure)
  · exact postfixed h

theorem operators {right : Nat → Parse Expr}
    (h : ∀ k, Takes (fun _ => True) marks (right k) marks) {start : Span} {least n : Nat}
    {e : Expr} : Takes P marks (operators right start least n e) marks := by
  refine anywhere ?_
  induction n generalizing e with
  | zero => exact fail
  | succ n ih =>
    refine peekKind fun k _ => ?_
    split
    · exact pure
    · next hop =>
      split
      · exact pure
      · exact bind (advance_common (Kind.isCommon_of_some (by decide) hop)) fun _ =>
          bind (h _) fun _ => spanFrom fun _ => ih

theorem climb (h : rules.Close) {levels least : Nat} :
    Takes P marks (climb rules levels least) marks := by
  induction levels generalizing least P with
  | zero => exact operand h
  | succ levels ih =>
    exact peek fun _ _ => bind (operand h) fun _ => budget fun _ => operators fun _ => ih

theorem conditional (h : rules.Close) : Takes P marks (conditional rules) marks := by
  refine peek fun _ _ => bind (climb h) fun test => bind (eat rfl) fun b => ?_
  split
  · exact bind (h.expression _) fun _ => bind (expectSymbol rfl) fun _ =>
      bind (h.expression _) fun _ => spanFrom fun _ => pure
  · exact pure

theorem expression (h : rules.Close) : Takes P marks (expression rules) marks := by
  refine get fun s => ?_
  split
  · exact arrow h
  · refine peek fun _ _ => bind (conditional h) fun target => peekKind fun k _ => ?_
    split
    · exact pure
    · next hop =>
      split
      · exact bind (advance_common (Kind.isCommon_of_some (by decide) hop)) fun _ =>
          bind (h.expression _) fun _ => spanFrom fun _ => pure
      · exact of_never fun _ _ _ => fail_ne_ok.mp

/-! ### Markup -/

theorem tagAttribute (h : rules.Close) : Takes P marks (tagAttribute rules) marks := by
  refine bind name fun x => bind (eat rfl) fun b => ?_
  split
  · refine peekKind fun k _ => ?_
    split
    · exact bind (advance_seen rfl) fun _ => pure
    · exact bind (advance_seen rfl) fun _ => bind (h.expression _) fun _ =>
        bind (expectSymbol rfl) fun _ => pure
    · exact fail
  · exact pure

/-- The mark that starts the tag was taken before. -/
theorem startTag (h : rules.Close) {start : Span} {x : String} :
    Takes P (.tagStart :: marks) (startTag rules start x) marks := by
  refine bind (itemsWhile (tagAttribute h)) fun _ => bind (eat rfl) fun b => ?_
  split
  · exact bind (expectSymbol rfl) fun _ => spanFrom fun _ => pure
  · exact bind (expectSymbol rfl) fun _ => bind (modify fun _ => rfl) fun _ =>
      spanFrom fun _ => pure

theorem endTag {start : Span} : Takes P (.tagStart :: marks) (endTag start) marks := by
  refine bind name fun x => bind (expectSymbol rfl) fun _ => get fun s => ?_
  split
  · exact failAt
  · exact bind (modify fun _ => rfl) fun _ => spanFrom fun _ => pure

theorem tag (h : rules.Close) : Takes P marks (tag rules) marks := by
  refine peek fun _ _ => bind (expectSymbol rfl) fun _ => peekKind fun k _ => ?_
  split
  · exact bind (advance_seen rfl) fun _ => startTag h
  · exact bind (advance_seen rfl) fun _ => endTag
  · exact failExpecting

/-- The mark of a decorator is taken by itself, but it starts what is read. -/
theorem decorator (h : rules.Close) : Takes P marks (decorator rules) marks := by
  intro s st s' _ hp
  have hstart := h.isDecorated hp
  rw [Parse.decorator, run_bind (run_peek _)] at hp
  obtain ⟨_, s₁, hmark, hp⟩ := bind_eq_ok.mp hp
  obtain ⟨t, ahead, hahead, ht, rfl⟩ := expectSymbol_eq_ok hmark
  obtain ⟨taken, rfl, hmarks, hdecorators⟩ : ∃ taken, ahead = taken ++ s'.ahead ∧
      closeMarks? marks taken = some marks ∧ StartDecorators taken s'.ahead := by
    refine bind (h.expression marks) (fun e => ?_) trivial hp
    split
    · exact failAt
    · exact bind (eat rfl) fun _ => spanFrom fun _ => pure
  rw [hahead] at hstart ⊢
  refine ⟨t :: taken, rfl, closeMarks?_cons.mpr ⟨marks, ?_, hmarks⟩, fun _ => hstart, hdecorators⟩
  rw [ht]
  rfl

/-! ### Declarations -/

theorem declarator (h : rules.Close) : Takes P marks (declarator rules) marks := by
  refine bind identifier fun x => bind (eat rfl) fun b => ?_
  split
  · exact bind (expression h) fun _ => pure
  · exact pure

theorem declaration (h : rules.Close) {kind : VariableKind} {k : Kind} (hk : k.isCommon = true) :
    Takes (· = k) marks (declaration rules kind) marks :=
  bind (advance_common hk) fun _ => bind (commaItems (declarator h)) fun _ => pure

theorem declarationStatement (h : rules.Close) {kind : VariableKind} {k : Kind}
    (hk : k.isCommon = true) : Takes (· = k) marks (declarationStatement rules kind) marks :=
  bind (declaration h hk) fun _ => bind semicolon fun _ => pure

theorem function (h : rules.Close) : Takes P marks (function rules) marks :=
  bind (expect rfl) fun _ => bind identifier fun _ => bind params fun _ =>
    bind (functionBody h) fun _ => pure

theorem importSpecifier : Takes P marks importSpecifier marks := by
  refine bind word fun x => bind (eat rfl) fun b => ?_
  split
  · exact bind identifier fun _ => pure
  · exact pure

theorem importSpecifiers : Takes P marks importSpecifiers marks :=
  bind (expectSymbol rfl) fun _ => commaList rfl importSpecifier

theorem importSource {defaultName : Option String} {xs : List ImportSpecifier} :
    Takes P marks (importSource defaultName xs) marks := by
  refine bind (eat rfl) fun b => ?_
  split
  · refine peekKind fun k _ => ?_
    split
    · exact bind (advance_seen rfl) fun _ => bind semicolon fun _ => pure
    · exact failExpecting
  · exact of_never fun _ _ _ => failExpecting_ne_ok.mp

theorem import_ {k : Kind} (hk : k.isCommon = true) : Takes (· = k) marks import_ marks := by
  refine bind (advance_common hk) fun _ => peekKind fun k _ => ?_
  split
  · exact bind (advance_seen rfl) fun _ => bind semicolon fun _ => pure
  · refine bind (advance_seen rfl) fun _ => bind (eat rfl) fun b => ?_
    dsimp only
    split
    · exact bind importSpecifiers fun _ => importSource
    · exact bind pure fun _ => importSource
  · exact bind importSpecifiers fun _ => importSource

theorem export_ (h : rules.Close) {k : Kind} (hk : k.isCommon = true) :
    Takes (· = k) marks (export_ rules) marks := by
  refine bind (advance_common hk) fun _ => peekKind fun k _ => ?_
  split
  · exact bind (function h) fun _ => pure
  · split
    · next hkind =>
      exact bind (declarationStatement h (Kind.isCommon_of_some (by decide) hkind)) fun _ => pure
    · exact failExpecting

/-! ### Control flow -/

section

variable {k : Kind} (hk : k.isCommon = true)
include hk

theorem return_ (h : rules.Close) : Takes (· = k) marks (return_ rules) marks := by
  refine bind (advance_common hk) fun _ => peek fun t _ => ?_
  split
  · exact bind semicolon fun _ => pure
  · exact bind (expression h) fun _ => bind semicolon fun _ => pure

theorem if_ (h : rules.Close) : Takes (· = k) marks (if_ rules) marks := by
  refine bind (advance_common hk) fun _ => bind (parenthesised h) fun _ =>
    bind (h.statement _) fun _ => bind (eat rfl) fun b => ?_
  split
  · exact bind (h.statement _) fun _ => pure
  · exact pure

theorem while_ (h : rules.Close) : Takes (· = k) marks (while_ rules) marks :=
  bind (advance_common hk) fun _ => bind (parenthesised h) fun _ =>
    bind (h.statement _) fun _ => pure

theorem wordStatement {st : Stmt} : Takes (· = k) marks (wordStatement st) marks :=
  bind (advance_common hk) fun _ => bind semicolon fun _ => pure

end

theorem forInit (h : rules.Close) : Takes P marks (forInit rules) marks := by
  refine peekKind fun k _ => ?_
  split
  · exact pure
  · split
    · next hkind =>
      exact bind (declaration h (Kind.isCommon_of_some (by decide) hkind)) fun _ => pure
    · exact bind (expression h) fun _ => pure

theorem expressionBefore (h : rules.Close) {stop : Symbol} :
    Takes P marks (expressionBefore rules stop) marks := by
  refine check fun k _ => ?_
  split
  · exact pure
  · exact bind (expression h) fun _ => pure

theorem for_ (h : rules.Close) {k : Kind} (hk : k.isCommon = true) :
    Takes (· = k) marks (for_ rules) marks :=
  bind (advance_common hk) fun _ => bind (expectSymbol rfl) fun _ => bind (forInit h) fun _ =>
    bind (expectSymbol rfl) fun _ => bind (expressionBefore h) fun _ =>
    bind (expectSymbol rfl) fun _ => bind (expressionBefore h) fun _ =>
    bind (expectSymbol rfl) fun _ => bind (h.statement _) fun _ => pure

theorem expressionStatement (h : rules.Close) : Takes P marks (expressionStatement rules) marks :=
  bind (expression h) fun _ => bind semicolon fun _ => pure

theorem statement (h : rules.Close) : Takes P marks (statement rules) marks := by
  refine peekKind fun k _ => ?_
  split
  · exact tag h
  · exact decorator h
  · exact bind (block h) fun _ => pure
  · exact bind (advance_seen rfl) fun _ => pure
  · exact declarationStatement h rfl
  · exact declarationStatement h rfl
  · exact declarationStatement h rfl
  · exact function h
  · exact return_ rfl h
  · exact if_ rfl h
  · exact while_ rfl h
  · exact for_ h rfl
  · exact wordStatement rfl
  · exact wordStatement rfl
  · exact import_ rfl
  · exact export_ h rfl
  · exact expressionStatement h

end Parse.Takes

/-! ### Tying the rules together -/

theorem Rules.close_nested (n : Nat) : (Rules.nested n).Close := by
  induction n with
  | zero =>
    exact ⟨fun _ => .fail, fun _ => .fail, fun _ => .fail, fun s st s' h => ⟨0, _, _, st, s', h⟩⟩
  | succ n ih =>
    exact ⟨fun _ => .expression ih, fun _ => .operand ih, fun _ => .statement ih,
      fun s st s' h => ⟨n + 1, _, _, st, s', h⟩⟩

end MarkupScript
