import MarkupScript.Proofs.Parse.Yields
import MarkupScript.Proofs.Token.Sound

/-!
# Parsed programs are well-formed

Each rule of the grammar gives well-formed results if the rules for its parts do. A statement also
keeps account of the open elements, and an `else` that could belong to it does not follow it. By
induction on the depth of the rules, every program that was parsed is well-formed.
-/

namespace MarkupScript

/-- A statement that neither opens nor ends an element, and that no `else` can belong to. -/
structure Stmt.IsFlat (st : Stmt) : Prop where
  wellFormed : st.WellFormed
  elements : ∀ n, st.elementsAfter n = some n
  closed : st.endsOpen = false

namespace Parse

/-! ### Statements and the open elements -/

/-- What holds of a statement that was parsed between two streams. -/
structure Gives (s : Stream) (st : Stmt) (s' : Stream) : Prop where
  sound : s'.Sound
  wellFormed : st.WellFormed
  elements : st.elementsAfter s.elements.length = some s'.elements.length
  /-- An `else` goes to the nearest `if`. -/
  else_ : st.endsOpen = true → s'.kind ≠ .keyword .else_

/-- All results of a parser of statements are well-formed, and it keeps account of the elements. -/
def YieldsStmt (p : Parse Stmt) : Prop := ∀ ⦃s st s'⦄, s.Sound → p s = .ok st s' → Gives s st s'

end Parse

/-- The rules for the parts of a construct give well-formed results. -/
structure Rules.Yield (rules : Rules) : Prop where
  expression : Parse.Yields rules.expression Expr.WellFormed
  operand : Parse.Yields rules.operand Expr.WellFormed
  statement : Parse.YieldsStmt rules.statement

namespace Parse

variable {α : Type} {rules : Rules}

namespace YieldsStmt

theorem of_yields {p : Parse Stmt} (h : Yields p Stmt.IsFlat) : YieldsStmt p := by
  intro s st s' hs hp
  obtain ⟨hs', hels, hst⟩ := h hs hp
  refine ⟨hs', hst.wellFormed, by rw [hst.elements, hels], fun hopen => ?_⟩
  rw [hst.closed] at hopen
  cases hopen

theorem bind {p : Parse α} {f : α → Parse Stmt} {Q : α → Prop} (hp : Yields p Q)
    (hf : ∀ a, Q a → YieldsStmt (f a)) : YieldsStmt (p >>= f) := by
  intro s st s' hs h
  obtain ⟨a, s₁, h₁, h₂⟩ := bind_eq_ok.mp h
  obtain ⟨hs₁, hels₁, ha⟩ := hp hs h₁
  obtain ⟨hs', hwf, hels, helse⟩ := hf a ha hs₁ h₂
  exact ⟨hs', hwf, hels₁ ▸ hels, helse⟩

end YieldsStmt

/-- Statements in a row keep account of the elements one after the other. -/
theorem YieldsStmt.itemsWhile {p : Parse Stmt} {goesOn : Kind → Bool} (hp : YieldsStmt p)
    {s s' : Stream} {body : List Stmt} (hs : s.Sound)
    (h : Parse.itemsWhile goesOn p s = .ok body s') :
    s'.Sound ∧ stmtsWellFormed body ∧
      elementsAfterAll body s.elements.length = some s'.elements.length := by
  rw [Parse.itemsWhile, run_bind (run_budget _)] at h
  generalize s.ahead.length + 1 = n at h
  induction n generalizing s body with
  | zero => exact (fail_ne_ok.mp h).elim
  | succ n ih =>
    rw [itemsWhile.loop, run_bind (run_peekKind _)] at h
    split at h
    · obtain ⟨st, s₂, hst, h⟩ := bind_eq_ok.mp h
      obtain ⟨rest, s₃, hrest, h⟩ := bind_eq_ok.mp h
      obtain ⟨rfl, rfl⟩ := pure_eq_ok.mp h
      have hgives := hp hs hst
      obtain ⟨hs', hwf, hels⟩ := ih hgives.sound hrest
      exact ⟨hs', ⟨hgives.wellFormed, hwf⟩, by simp [elementsAfterAll, hgives.elements, hels]⟩
    · obtain ⟨rfl, rfl⟩ := pure_eq_ok.mp h
      exact ⟨hs, trivial, rfl⟩

/-! ### Expressions -/

namespace Yields

theorem params : Yields params fun xs => ∀ x ∈ xs, IsIdentifier x :=
  bind (expectSymbol _) fun _ _ => commaList identifier

theorem block (h : rules.Yield) {s s' : Stream} {body : List Stmt} (hs : s.Sound)
    (hp : Parse.block rules s = .ok body s') :
    s'.Sound ∧ stmtsWellFormed body ∧
      elementsAfterAll body s.elements.length = some s'.elements.length := by
  obtain ⟨_, s₁, hopen, hp⟩ := bind_eq_ok.mp hp
  obtain ⟨_, s₂, hitems, hp⟩ := bind_eq_ok.mp hp
  obtain ⟨_, s₃, hclose, hp⟩ := bind_eq_ok.mp hp
  obtain ⟨rfl, rfl⟩ := pure_eq_ok.mp hp
  obtain ⟨hs₁, hels₁, -⟩ := expectSymbol _ hs hopen
  obtain ⟨hs₂, hwf, hels₂⟩ := h.statement.itemsWhile hs₁ hitems
  obtain ⟨hs₃, hels₃, -⟩ := expectSymbol _ hs₂ hclose
  exact ⟨hs₃, hwf, by rw [← hels₁, hels₂, hels₃]⟩

theorem functionBody (h : rules.Yield) :
    Yields (functionBody rules) fun body => stmtsWellFormed body ∧ Paired body := by
  intro s body s' hs hp
  unfold Parse.functionBody withoutElements at hp
  split at hp
  · next hblock =>
    cases hp
    obtain ⟨hs', hwf, hels⟩ := block h (s := { s with elements := [] }) hs hblock
    exact ⟨hs', rfl, hwf, by rw [Paired, show 0 = ([] : List String).length from rfl, hels]; rfl⟩
  · cases hp

theorem arrow (h : rules.Yield) : Yields (arrow rules) Expr.WellFormed := by
  refine bind peek fun t _ => bind (check _) fun b _ => ?_
  have hbody (xs : List String) (hxs : ∀ x ∈ xs, IsIdentifier x) :
      Yields (do
        Parse.expectSymbol .arrow
        let body ←
          if ← Parse.check (.symbol .leftBrace) then ArrowBody.block <$> Parse.functionBody rules
          else ArrowBody.expression <$> rules.expression
        return .arrow xs body (← Parse.spanFrom t.span)) Expr.WellFormed := by
    have hspan (body : ArrowBody) (hbody : body.WellFormed) :
        Yields (do return .arrow xs body (← Parse.spanFrom t.span)) Expr.WellFormed :=
      bind (spanFrom _) fun _ _ => pure ⟨hxs, hbody⟩
    refine bind (expectSymbol _) fun _ _ => bind (check _) fun b _ => ?_
    dsimp only
    split
    · exact bind ((functionBody h).map (R := ArrowBody.WellFormed) fun _ hb => hb) hspan
    · exact bind (h.expression.map (R := ArrowBody.WellFormed) fun _ he => he) hspan
  dsimp only
  split
  · exact bind params hbody
  · exact bind identifier fun x hx =>
      bind (pure (Q := fun xs => ∀ y ∈ xs, IsIdentifier y) (by simpa using hx)) hbody

/-! ### Primary expressions -/

theorem arguments (h : rules.Yield) :
    Yields (arguments rules) fun es => exprsWellFormed es :=
  bind (expectSymbol _) fun _ _ => (commaList h.expression).mono fun _ => exprsWellFormed_iff.mpr

theorem array (h : rules.Yield) : Yields (array rules) Expr.WellFormed :=
  bind peek fun _ _ => bind (expectSymbol _) fun _ _ => bind (commaList h.expression) fun _ hes =>
    bind (spanFrom _) fun _ _ => pure (exprsWellFormed_iff.mpr hes)

theorem property (h : rules.Yield) : Yields (property rules) Property.WellFormed := by
  refine bind peek fun t ht => ?_
  split
  · exact failExpecting
  · refine bind advance fun _ _ => bind (eat _) fun b _ => ?_
    split
    · exact bind h.expression fun e he => pure he
    · split
      · next name hname =>
        rw [hname] at ht
        exact pure ⟨ht, t.span, rfl⟩
      · exact failExpecting

theorem object (h : rules.Yield) : Yields (object rules) Expr.WellFormed :=
  bind peek fun _ _ => bind (expectSymbol _) fun _ _ =>
    bind (commaList (property h)) fun _ hps =>
      bind (spanFrom _) fun _ _ => pure (propertiesWellFormed_iff.mpr hps)

theorem parenthesised (h : rules.Yield) : Yields (parenthesised rules) Expr.WellFormed :=
  bind (expectSymbol _) fun _ _ => bind h.expression fun _ he =>
    bind (expectSymbol _) fun _ _ => pure he

theorem wellFormed_of_atom? {t : Token} (ht : t.kind.WellFormed) {e : Expr} (h : atom? t = some e) :
    e.WellFormed := by
  unfold atom? at h
  split at h <;> cases h <;> first | trivial | simp_all [Kind.WellFormed, Expr.WellFormed]

theorem primary (h : rules.Yield) : Yields (primary rules) Expr.WellFormed := by
  refine bind peek fun t ht => ?_
  split
  · next e he => exact bind advance fun _ _ => pure (wellFormed_of_atom? ht he)
  · split
    · exact parenthesised h
    · exact array h
    · exact object h
    · exact fail

/-! ### Calls and members -/

theorem propertyName : Yields propertyName (·.isWord = true) :=
  bind peek fun _ _ => bind (word _) fun _ hx => pure hx

theorem newCallee {start : Span} {n : Nat} {e : Expr} (he : e.WellFormed) :
    Yields (newCallee start n e) Expr.WellFormed := by
  induction n generalizing e with
  | zero => exact fail
  | succ n ih =>
    refine bind (eat _) fun b _ => ?_
    split
    · exact bind propertyName fun x hx => bind (spanFrom _) fun _ _ => ih ⟨he, hx⟩
    · exact pure he

theorem new (h : rules.Yield) : Yields (new rules) Expr.WellFormed := by
  refine bind peek fun t _ => bind advance fun _ _ => bind budget fun n _ =>
    bind (primary h) fun e he => bind (newCallee he) fun callee hcallee =>
      bind (check _) fun b _ => ?_
  have hspan (es : List Expr) (hes : exprsWellFormed es) :
      Yields (do return .new callee es (← Parse.spanFrom t.span)) Expr.WellFormed :=
    bind (spanFrom _) fun _ _ => pure ⟨hcallee, hes⟩
  dsimp only
  split
  · exact bind (arguments h) hspan
  · exact bind (pure (Q := exprsWellFormed) trivial) hspan

theorem chain (h : rules.Yield) {start : Span} {n : Nat} {e : Expr} (he : e.WellFormed) :
    Yields (chain rules start n e) Expr.WellFormed := by
  induction n generalizing e with
  | zero => exact fail
  | succ n ih =>
    refine bind peekKind fun k _ => ?_
    split
    · exact bind advance fun _ _ => bind propertyName fun x hx => bind (spanFrom _) fun _ _ =>
        ih ⟨he, hx⟩
    · exact bind advance fun _ _ => bind propertyName fun x hx => bind (spanFrom _) fun _ _ =>
        ih ⟨he, hx⟩
    · exact bind advance fun _ _ => bind h.expression fun x hx => bind (expectSymbol _) fun _ _ =>
        bind (spanFrom _) fun _ _ => ih ⟨he, hx, rfl⟩
    · exact bind (arguments h) fun es hes => bind (spanFrom _) fun _ _ => ih ⟨he, hes⟩
    · exact pure he

theorem callMember (h : rules.Yield) : Yields (callMember rules) Expr.WellFormed := by
  refine bind peek fun t _ => bind (check _) fun b _ => ?_
  have hchain (e : Expr) (he : e.WellFormed) :
      Yields (do Parse.chain rules t.span (← Parse.budget) e) Expr.WellFormed :=
    bind budget fun _ _ => chain h he
  dsimp only
  split
  · exact bind (new h) hchain
  · exact bind (primary h) hchain

/-! ### Operators -/

theorem checkUpdateTarget (e : Expr) : Yields (checkUpdateTarget e) fun _ => e.isTarget = true := by
  unfold Parse.checkUpdateTarget
  split
  · next h => exact pure h
  · exact fail

theorem postfixed (h : rules.Yield) : Yields (postfixed rules) Expr.WellFormed := by
  refine bind peek fun _ _ => bind (callMember h) fun e he => bind peek fun t _ => ?_
  split
  · exact pure he
  · split
    · exact pure he
    · exact bind (checkUpdateTarget e) fun _ htarget => bind advance fun _ _ =>
        bind (spanFrom _) fun _ _ => pure ⟨htarget, he⟩

theorem operand (h : rules.Yield) : Yields (operand rules) Expr.WellFormed := by
  refine bind peek fun _ _ => bind peekKind fun k _ => ?_
  split
  · exact bind advance fun _ _ => bind h.operand fun e he => bind (spanFrom _) fun _ _ => pure he
  · exact bind advance fun _ _ => bind h.operand fun e he =>
      bind (checkUpdateTarget e) fun _ htarget => bind (spanFrom _) fun _ _ => pure ⟨htarget, he⟩
  · exact postfixed h

theorem operators {right : Nat → Parse Expr} (h : ∀ k, Yields (right k) Expr.WellFormed)
    {start : Span} {least n : Nat} {e : Expr} (he : e.WellFormed) :
    Yields (operators right start least n e) Expr.WellFormed := by
  induction n generalizing e with
  | zero => exact fail
  | succ n ih =>
    refine bind peekKind fun k _ => ?_
    split
    · exact pure he
    · split
      · exact pure he
      · exact bind advance fun _ _ => bind (h _) fun e' he' => bind (spanFrom _) fun _ _ =>
          ih ⟨he, he'⟩

theorem climb (h : rules.Yield) (levels least : Nat) :
    Yields (climb rules levels least) Expr.WellFormed := by
  induction levels generalizing least with
  | zero => exact operand h
  | succ levels ih =>
    exact bind peek fun _ _ => bind (operand h) fun e he => bind budget fun _ _ => operators ih he

theorem conditional (h : rules.Yield) : Yields (conditional rules) Expr.WellFormed := by
  refine bind peek fun _ _ => bind (climb h _ _) fun test htest => bind (eat _) fun b _ => ?_
  split
  · exact bind h.expression fun e he => bind (expectSymbol _) fun _ _ =>
      bind h.expression fun e' he' => bind (spanFrom _) fun _ _ => pure ⟨htest, he, he'⟩
  · exact pure htest

theorem expression (h : rules.Yield) : Yields (expression rules) Expr.WellFormed := by
  refine bind get fun s _ => ?_
  split
  · exact arrow h
  · refine bind peek fun _ _ => bind (conditional h) fun target htarget => bind peekKind fun k _ => ?_
    split
    · exact pure htarget
    · split
      · next hassigned =>
        exact bind advance fun _ _ => bind h.expression fun value hvalue =>
          bind (spanFrom _) fun _ _ => pure ⟨hassigned, htarget, hvalue⟩
      · exact bind (fail (Q := fun _ => False)) fun _ h => h.elim

/-! ### Simple statements -/

theorem tagAttribute (h : rules.Yield) : Yields (tagAttribute rules) Attribute.WellFormed := by
  refine bind (name _) fun x hx => bind (eat _) fun b _ => ?_
  split
  · refine bind peekKind fun k _ => ?_
    split
    · exact bind advance fun _ _ => pure hx
    · exact bind advance fun _ _ => bind h.expression fun e he => bind (expectSymbol _) fun _ _ =>
        pure ⟨hx, he⟩
    · exact fail
  · exact pure hx

theorem wellFormed_of_decoratorParts? {e : Expr} (he : e.WellFormed) {x : String} {es : List Expr}
    (h : decoratorParts? e = some (x, es)) : IsIdentifier x ∧ exprsWellFormed es := by
  unfold decoratorParts? at h
  split at h
  · cases h
    exact he
  · cases h
    exact ⟨he, trivial⟩
  · cases h

theorem decorator (h : rules.Yield) : Yields (decorator rules) Stmt.IsFlat := by
  refine bind peek fun _ _ => bind (expectSymbol _) fun _ _ => bind h.expression fun e he => ?_
  split
  · exact failAt
  · next x es hparts =>
    exact bind (eat _) fun _ _ => bind (spanFrom _) fun _ _ =>
      pure ⟨wellFormed_of_decoratorParts? he hparts, fun _ => rfl, rfl⟩

theorem declarator (h : rules.Yield) : Yields (declarator rules) Declarator.WellFormed := by
  refine bind identifier fun x hx => bind (eat _) fun b _ => ?_
  split
  · exact bind (expression h) fun e he => pure ⟨hx, he⟩
  · exact pure ⟨hx, trivial⟩

theorem declaration (h : rules.Yield) (kind : VariableKind) :
    Yields (declaration rules kind) fun st => st.IsFlat ∧ st.isForInit = true ∧
      st.isDeclaration = true :=
  bind advance fun _ _ => bind (commaItems (declarator h)) fun _ hds =>
    pure ⟨⟨⟨hds.1, declaratorsWellFormed_iff.mpr hds.2⟩, fun _ => rfl, rfl⟩, rfl, rfl⟩

theorem declarationStatement (h : rules.Yield) (kind : VariableKind) :
    Yields (declarationStatement rules kind) fun st => st.IsFlat ∧ st.isDeclaration = true :=
  bind (declaration h kind) fun _ hst => bind semicolon fun _ _ => pure ⟨hst.1, hst.2.2⟩

theorem function (h : rules.Yield) :
    Yields (function rules) fun st => st.IsFlat ∧ st.isDeclaration = true :=
  bind (expect _) fun _ _ => bind identifier fun _ hx => bind params fun _ hxs =>
    bind (functionBody h) fun _ hbody =>
      pure ⟨⟨⟨hx, hxs, hbody.1, hbody.2, rfl⟩, fun _ => rfl, rfl⟩, rfl⟩

theorem importSpecifier : Yields importSpecifier ImportSpecifier.WellFormed := by
  refine bind (word _) fun x hx => bind (eat _) fun b _ => ?_
  split
  · exact bind identifier fun y hy => pure ⟨hx, .inr hy⟩
  · exact pure ⟨hx, .inl rfl⟩

theorem importSpecifiers : Yields importSpecifiers fun xs => ∀ x ∈ xs, x.WellFormed :=
  bind (expectSymbol _) fun _ _ => commaList importSpecifier

theorem importSource {defaultName : Option String} {xs : List ImportSpecifier}
    (hdefault : ∀ x ∈ defaultName, IsIdentifier x) (hxs : ∀ x ∈ xs, x.WellFormed) :
    Yields (importSource defaultName xs) Stmt.IsFlat := by
  refine bind (eat _) fun b _ => ?_
  split
  · refine bind peekKind fun k _ => ?_
    split
    · exact bind advance fun _ _ => bind semicolon fun _ _ =>
        pure ⟨⟨hdefault, hxs⟩, fun _ => rfl, rfl⟩
    · exact failExpecting
  · exact bind (failExpecting (Q := fun _ => False)) fun _ h => h.elim

theorem import_ : Yields import_ Stmt.IsFlat := by
  refine bind advance fun _ _ => bind peekKind fun k hk => ?_
  split
  · exact bind advance fun _ _ => bind semicolon fun _ _ => pure ⟨⟨nofun, nofun⟩, fun _ => rfl, rfl⟩
  · next x =>
    have hdefault : ∀ y ∈ some x, IsIdentifier y := by
      rintro y ⟨⟩
      exact hk
    refine bind advance fun _ _ => bind (eat _) fun b _ => ?_
    dsimp only
    split
    · exact bind importSpecifiers fun xs hxs => importSource hdefault hxs
    · exact bind (pure (Q := (· = [])) rfl) fun xs hxs => importSource hdefault (hxs ▸ nofun)
  · exact bind importSpecifiers fun xs hxs => importSource nofun hxs

theorem export_ (h : rules.Yield) : Yields (export_ rules) Stmt.IsFlat := by
  have hexport {st : Stmt} (hst : st.IsFlat ∧ st.isDeclaration = true) :
      (Stmt.export_ st).IsFlat :=
    ⟨⟨hst.2, hst.1.wellFormed⟩, hst.1.elements, rfl⟩
  refine bind advance fun _ _ => bind peekKind fun k _ => ?_
  split
  · exact bind (function h) fun st hst => pure (hexport hst)
  · split
    · exact bind (declarationStatement h _) fun st hst => pure (hexport hst)
    · exact failExpecting

theorem return_ (h : rules.Yield) : Yields (return_ rules) Stmt.IsFlat := by
  refine bind advance fun _ _ => bind peek fun t _ => ?_
  split
  · exact bind semicolon fun _ _ => pure ⟨trivial, fun _ => rfl, rfl⟩
  · exact bind (expression h) fun e he => bind semicolon fun _ _ => pure ⟨he, fun _ => rfl, rfl⟩

theorem wordStatement {st : Stmt} (h : st.IsFlat) : Yields (wordStatement st) Stmt.IsFlat :=
  bind advance fun _ _ => bind semicolon fun _ _ => pure h

theorem expressionStatement (h : rules.Yield) : Yields (expressionStatement rules) Stmt.IsFlat :=
  bind (expression h) fun _ he => bind semicolon fun _ _ => pure ⟨he, fun _ => rfl, rfl⟩

/-! ### The head of a loop -/

theorem forInit (h : rules.Yield) : Yields (forInit rules) fun init =>
    (∀ st ∈ init, st.isForInit = true) ∧ stmtWellFormed? init := by
  have hsome {st : Stmt} (hst : st.isForInit = true ∧ st.WellFormed) :
      (∀ x ∈ some st, x.isForInit = true) ∧ stmtWellFormed? (some st) := by
    refine ⟨?_, hst.2⟩
    rintro x ⟨⟩
    exact hst.1
  refine bind peekKind fun k _ => ?_
  split
  · exact pure ⟨nofun, trivial⟩
  · split
    · exact bind (declaration h _) fun st hst => pure (hsome ⟨hst.2.1, hst.1.wellFormed⟩)
    · exact bind (expression h) fun e he => pure (hsome ⟨rfl, he⟩)

theorem expressionBefore (h : rules.Yield) (stop : Symbol) :
    Yields (expressionBefore rules stop) exprWellFormed? := by
  refine bind (check _) fun b _ => ?_
  split
  · exact pure trivial
  · exact bind (expression h) fun e he => pure he

end Yields

/-! ### Statements with parts -/

namespace YieldsStmt

theorem startTag (h : rules.Yield) {start : Span} {x : String} (hx : isTagName x = true) :
    YieldsStmt (startTag rules start x) := by
  refine bind (Yields.itemsWhile (Yields.tagAttribute h)) fun as has => bind (.eat _) fun b _ => ?_
  have hwf := attributesWellFormed_iff.mpr has
  split
  · exact of_yields (.bind (.expectSymbol _) fun _ _ => .bind (.spanFrom _) fun _ _ =>
      .pure ⟨⟨hx, hwf⟩, fun _ => rfl, rfl⟩)
  · refine bind (.expectSymbol _) fun _ _ => ?_
    intro s st s' hs hp
    obtain ⟨_, s₁, ⟨⟩, hp⟩ := bind_eq_ok.mp hp
    obtain ⟨_, s₂, ⟨⟩, hp⟩ := bind_eq_ok.mp hp
    obtain ⟨rfl, rfl⟩ := pure_eq_ok.mp hp
    exact ⟨hs, ⟨hx, hwf⟩, rfl, nofun⟩

theorem endTag {start : Span} : YieldsStmt (endTag start) := by
  refine bind (.name _) fun x hx => bind (.expectSymbol _) fun _ _ => ?_
  intro s st s' hs hp
  rw [run_bind (run_get s)] at hp
  cases hels : s.elements with
  | nil =>
    rw [hels] at hp
    exact (failAt_ne_ok.mp hp).elim
  | cons x outer =>
    rw [hels] at hp
    obtain ⟨_, s₁, ⟨⟩, hp⟩ := bind_eq_ok.mp hp
    obtain ⟨_, s₂, ⟨⟩, hp⟩ := bind_eq_ok.mp hp
    obtain ⟨rfl, rfl⟩ := pure_eq_ok.mp hp
    exact ⟨hs, hx, by simp [Stmt.elementsAfter, hels], nofun⟩

theorem tag (h : rules.Yield) : YieldsStmt (tag rules) := by
  refine bind .peek fun _ _ => bind (.expectSymbol _) fun _ _ => bind .peekKind fun k hk => ?_
  split
  · exact bind .advance fun _ _ => startTag h hk
  · exact bind .advance fun _ _ => endTag
  · exact of_yields .failExpecting

theorem block (h : rules.Yield) : YieldsStmt (do return .block (← Parse.block rules)) := by
  intro s st s' hs hp
  obtain ⟨body, s₁, hblock, hp⟩ := bind_eq_ok.mp hp
  obtain ⟨rfl, rfl⟩ := pure_eq_ok.mp hp
  obtain ⟨hs', hwf, hels⟩ := Yields.block h hs hblock
  exact ⟨hs', hwf, hels, nofun⟩

theorem if_ (h : rules.Yield) : YieldsStmt (if_ rules) := by
  refine bind .advance fun _ _ => bind (.parenthesised h) fun test htest => ?_
  intro s st s' hs hp
  obtain ⟨consequent, s₁, hconsequent, hp⟩ := bind_eq_ok.mp hp
  have hgives := h.statement hs hconsequent
  by_cases helse : s₁.kind = .keyword .else_
  · obtain ⟨b, s₂, heat, hp⟩ := bind_eq_ok.mp hp
    obtain ⟨hs₂, hels, -⟩ := Yields.eat _ hgives.sound heat
    obtain rfl := eat_eq_true heat helse
    obtain ⟨alternate, s₃, halternate, hp⟩ := bind_eq_ok.mp hp
    obtain ⟨rfl, rfl⟩ := pure_eq_ok.mp hp
    have hgives' := h.statement hs₂ halternate
    have hclosed : consequent.endsOpen = false :=
      Bool.eq_false_iff.mpr fun hopen => hgives.else_ hopen helse
    exact ⟨hgives'.sound, ⟨htest, hgives.wellFormed, hgives'.wellFormed, fun _ => hclosed⟩,
      by simp [Stmt.elementsAfter, elementsAfter?, hgives.elements, ← hels, hgives'.elements],
      hgives'.else_⟩
  · rw [run_bind (run_eat_other helse)] at hp
    obtain ⟨rfl, rfl⟩ := pure_eq_ok.mp hp
    exact ⟨hgives.sound, ⟨htest, hgives.wellFormed, trivial, nofun⟩,
      by simp [Stmt.elementsAfter, elementsAfter?, hgives.elements], fun _ => helse⟩

theorem while_ (h : rules.Yield) : YieldsStmt (while_ rules) := by
  refine bind .advance fun _ _ => bind (.parenthesised h) fun test htest => ?_
  intro s st s' hs hp
  obtain ⟨body, s₁, hbody, hp⟩ := bind_eq_ok.mp hp
  obtain ⟨rfl, rfl⟩ := pure_eq_ok.mp hp
  have hgives := h.statement hs hbody
  exact ⟨hgives.sound, ⟨htest, hgives.wellFormed⟩, hgives.elements, hgives.else_⟩

theorem for_ (h : rules.Yield) : YieldsStmt (for_ rules) := by
  refine bind .advance fun _ _ => bind (.expectSymbol _) fun _ _ =>
    bind (.forInit h) fun init hinit => bind (.expectSymbol _) fun _ _ =>
    bind (.expressionBefore h _) fun test htest => bind (.expectSymbol _) fun _ _ =>
    bind (.expressionBefore h _) fun update hupdate => bind (.expectSymbol _) fun _ _ => ?_
  intro s st s' hs hp
  obtain ⟨body, s₁, hbody, hp⟩ := bind_eq_ok.mp hp
  obtain ⟨rfl, rfl⟩ := pure_eq_ok.mp hp
  have hgives := h.statement hs hbody
  exact ⟨hgives.sound, ⟨hinit.1, hinit.2, htest, hupdate, hgives.wellFormed⟩, hgives.elements,
    hgives.else_⟩

theorem statement (h : rules.Yield) : YieldsStmt (statement rules) := by
  refine bind .peekKind fun k _ => ?_
  split
  · exact tag h
  · exact of_yields (.decorator h)
  · exact block h
  · exact of_yields (.bind .advance fun _ _ => .pure ⟨trivial, fun _ => rfl, rfl⟩)
  · exact of_yields ((Yields.declarationStatement h _).mono fun _ hst => hst.1)
  · exact of_yields ((Yields.declarationStatement h _).mono fun _ hst => hst.1)
  · exact of_yields ((Yields.declarationStatement h _).mono fun _ hst => hst.1)
  · exact of_yields ((Yields.function h).mono fun _ hst => hst.1)
  · exact of_yields (.return_ h)
  · exact if_ h
  · exact while_ h
  · exact for_ h
  · exact of_yields (.wordStatement ⟨trivial, fun _ => rfl, rfl⟩)
  · exact of_yields (.wordStatement ⟨trivial, fun _ => rfl, rfl⟩)
  · exact of_yields .import_
  · exact of_yields (.export_ h)
  · exact of_yields (.expressionStatement h)

end YieldsStmt

end Parse

/-! ### Programs -/

theorem Rules.yield_nested (n : Nat) : (Rules.nested n).Yield := by
  induction n with
  | zero => exact ⟨.fail, .fail, .of_yields .fail⟩
  | succ n ih => exact ⟨.expression ih, .operand ih, .statement ih⟩

/-- Every program that was parsed is well-formed. -/
theorem parse_wellFormed {source : String} {p : Program} (h : parse source = .ok p) :
    p.WellFormed := by
  have hrules : Parse.YieldsStmt Parse.anyStatement := fun s => (Rules.yield_nested _).statement (s := s)
  unfold parse at h
  split at h
  · cases h
  · next tokens htokens =>
    split at h
    · next p s hprogram =>
      cases h
      obtain ⟨body, s', hbody, hp⟩ := Parse.bind_eq_ok.mp hprogram
      obtain ⟨rfl, rfl⟩ := Parse.pure_eq_ok.mp hp
      obtain ⟨-, hwf, hels⟩ := hrules.itemsWhile (s := .ofTokens tokens)
        (tokenize_wellFormed htokens) hbody
      exact ⟨hwf, Option.isSome_iff_exists.mpr ⟨_, hels⟩⟩
    · cases h

end MarkupScript
