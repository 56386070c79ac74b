import MarkupScript.Proofs.Parse.Leftmost
import MarkupScript.Proofs.Parse.Lists
import MarkupScript.Proofs.Print.ReadsBack

/-!
# Reading expressions

The productions of expressions, one by one: if the parts are read from their lexemes, the whole is.
`ReadsAs rules level ls e` collects how lexemes of a level are read by the parser of each level. It
is enough to know the tightest of them, because a parser for looser expressions starts with the one
for tighter ones.
-/

namespace MarkupScript

namespace Parse

variable {rules : Rules}

/-! ### Levels -/

/-- The lexemes are read as an expression of a level, wherever such an expression is expected. -/
structure ReadsAs (rules : Rules) (level : Nat) (ls : List Lexeme) (e : Expr) : Prop where
  expression : ReadsAt (expression rules) Level.assignment ls e
  operands : Level.conditional < level → ReadsOperands rules level ls e
  operand : Level.unary ≤ level → ReadsAt (operand rules) Level.unary ls e
  chain : Level.call ≤ level → ReadsChain rules ls e
  primary : Level.primary ≤ level → ReadsAt (primary rules) Level.primary ls e

theorem ReadsOperands.mono {level level' : Nat} {ls : List Lexeme} {e : Expr}
    (h : ReadsOperands rules level ls e) (hle : level' ≤ level) :
    ReadsOperands rules level' ls e :=
  fun levels least hl hleast b els ahead rest hs hstop hunary =>
    h levels least hl (Nat.le_trans hleast hle) b els ahead rest hs (Nat.le_trans hstop hle) hunary

theorem isOperatorInFront_of_startLevel {k : Kind} (h : Level.call ≤ k.startLevel) :
    isOperatorInFront k = false := by
  cases k with
  | symbol mark => cases mark <;> first | rfl | exact absurd h (by decide)
  | keyword word => cases word <;> first | rfl | exact absurd h (by decide)
  | _ => rfl

theorem ne_new_of_startLevel {k : Kind} (h : Level.primary ≤ k.startLevel) :
    k ≠ .keyword .new_ := by
  rintro rfl
  exact absurd h (by decide)

namespace ReadsAs

variable {level : Nat} {ls : List Lexeme} {e : Expr}

theorem mono {level' : Nat} (h : ReadsAs rules level ls e) (hle : level' ≤ level) :
    ReadsAs rules level' ls e where
  expression := h.expression
  operands hl := (h.operands (Nat.lt_of_lt_of_le hl hle)).mono hle
  operand hl := h.operand (Nat.le_trans hl hle)
  chain hl := h.chain (Nat.le_trans hl hle)
  primary hl := h.primary (Nat.le_trans hl hle)

theorem of_expression (h : ReadsAt (Parse.expression rules) Level.assignment ls e)
    (hlevel : level ≤ Level.conditional) : ReadsAs rules level ls e where
  expression := h
  operands hl := by omega
  operand hl := by simp only [Level.unary, Level.conditional] at *; omega
  chain hl := by simp only [Level.call, Level.conditional] at *; omega
  primary hl := by simp only [Level.primary, Level.conditional] at *; omega

theorem of_operands (h : ReadsOperands rules level ls e) (hno : NoArrow ls)
    (hlow : Level.conditional < level) (hhigh : level < Level.unary) :
    ReadsAs rules level ls e where
  expression := .expression_of_conditional
    ((ReadsAt.conditional_of_operands h hlow).mono (by decide)) hno
  operands _ := h
  operand hl := by omega
  chain hl := by simp only [Level.call, Level.unary] at *; omega
  primary hl := by simp only [Level.primary, Level.unary] at *; omega

theorem of_operand (h : ReadsAt (Parse.operand rules) Level.unary ls e) (hno : NoArrow ls)
    (hlow : Level.unary ≤ level) (hhigh : level < Level.call) : ReadsAs rules level ls e where
  expression := .expression_of_conditional ((ReadsAt.conditional_of_operands (n := level)
    (.of_operand h) (Nat.le_trans (by decide) hlow)).mono (by decide)) hno
  operands _ := .of_operand h
  operand _ := h
  chain hl := by omega
  primary hl := by simp only [Level.primary, Level.call] at *; omega

theorem of_chain (h : ReadsChain rules ls e) (hno : NoArrow ls) (hstart : StartsAt Level.call ls) :
    ReadsAs rules Level.call ls e := by
  obtain ⟨l, rest, rfl, hl⟩ := hstart
  have ho := ReadsAt.operand_of_chain h (isOperatorInFront_of_startLevel hl)
  exact
    { expression := .expression_of_conditional
        ((ReadsAt.conditional_of_operands (n := Level.call) (.of_operand ho)
          (by decide)).mono (by decide)) hno
      operands _ := .of_operand ho
      operand _ := ho
      chain _ := h
      primary hl := absurd hl (by decide) }

theorem of_primary (h : ReadsAt (Parse.primary rules) Level.primary ls e) (hno : NoArrow ls)
    (hstart : StartsAt Level.primary ls) : ReadsAs rules Level.primary ls e := by
  obtain ⟨l, rest, rfl, hl⟩ := hstart
  have hc := ReadsChain.of_primary h (ne_new_of_startLevel hl)
  have hcall := of_chain hc hno ⟨l, rest, rfl, Nat.le_trans (by decide) hl⟩
  exact
    { expression := hcall.expression
      operands _ := .of_operand (hcall.operand (by decide))
      operand _ := hcall.operand (by decide)
      chain _ := hc
      primary _ := h }

/-- In parentheses an expression is a primary one. -/
theorem parens (h : ReadsAt rules.expression Level.assignment ls e) (hb : Balanced ls) :
    ReadsAs rules Level.primary (.mark .leftParen :: ls ++ [.mark .rightParen]) e :=
  of_primary (.parenthesised h) (.parens hb) (.cons (by decide) _)

theorem parensIf (h : ReadsAs rules level ls e) (hlevel : level ≤ Level.primary)
    {needed : Bool} (hp : needed = true → ReadsAt rules.expression Level.assignment ls e)
    (hb : Balanced ls) : ReadsAs rules level (lexemesParenthesisedIf needed ls) e := by
  cases needed
  · exact h
  · exact (parens (hp rfl) hb).mono hlevel

/-- In a place for a level, an expression has that level. -/
theorem inPlace {printed : Expr} {least : Nat} (h : ReadsAs rules printed.level ls e)
    (hp : printed.level < least → ReadsAt rules.expression Level.assignment ls e)
    (hb : Balanced ls) (hleast : least ≤ Level.primary) :
    ReadsAs rules least (printed.lexemesInPlace least ls) e := by
  unfold Expr.lexemesInPlace
  by_cases hl : printed.level < least
  · simp only [hl, decide_true]
    exact (parens (hp hl) hb).mono hleast
  · simp only [hl, decide_false]
    exact h.mono (Nat.not_lt.mp hl)

/-- An expression that starts with a brace is read in parentheses. -/
theorem guard (h : ReadsAs rules level ls e)
    (hp : startsWithBrace ls = true → ReadsAt rules.expression Level.assignment ls e)
    (hb : Balanced ls) : ReadsAt (Parse.expression rules) Level.assignment (guardLexemes ls) e := by
  unfold guardLexemes
  cases hneeded : startsWithBrace ls with
  | true => exact (parens (hp hneeded) hb).expression
  | false => exact h.expression

end ReadsAs

/-! ### Primary expressions -/

theorem Reads.afterMark {α β : Type} {p : Parse α} {mark : Symbol} {ls : List Lexeme}
    {stop : Kind → Prop} {view : α → β} {value : β} (h : Reads p ls stop view value) :
    Reads (do expectSymbol mark; p) (.mark mark :: ls) stop view value := by
  rintro b els ahead rest ⟨t, ahead', rfl, ⟨ht, -⟩, hs⟩ hstop
  obtain ⟨a, b', ha, hv⟩ := h (some t) els ahead' rest hs hstop
  exact ⟨a, b', by rw [run_bind (run_expectSymbol ht), ha], hv⟩

theorem ReadsAt.atom {l : Lexeme} {e : Expr}
    (h : ∀ t : Token, t.kind = l.kind →
      ∃ e', atom? t = some e' ∧ e'.withoutSpans = e.withoutSpans) :
    ReadsAt (primary rules) Level.primary [l] e := by
  rintro b els ahead rest ⟨t, ahead', rfl, ⟨ht, -⟩, rfl⟩ _
  obtain ⟨e', he, hv⟩ := h t ht
  refine ⟨e', some t, ?_, hv⟩
  rw [primary, run_bind (run_peek _)]
  simp only [Stream.next_cons, he]
  rfl

/-- A mark that ends a list of expressions: no expression starts or goes on with it. -/
def Symbol.IsCloser (mark : Symbol) : Prop :=
  mark ≠ .comma ∧ (Kind.symbol mark).joinLevel = 0 ∧ (Kind.symbol mark).startLevel = 0

/-- No list item that is an expression starts with the mark that ends the list. -/
theorem startsAt_ne_closer {level : Nat} {ls : List Lexeme} {close : Symbol}
    (h : StartsAt level ls) (hlevel : 1 ≤ level) (hc : Symbol.IsCloser close) :
    ∃ l rest, ls = l :: rest ∧ l.kind ≠ .symbol close := by
  obtain ⟨l, rest, rfl, hl⟩ := h
  refine ⟨l, rest, rfl, fun hk => ?_⟩
  rw [hk, hc.2.2] at hl
  omega

/-- A list of expressions is read item by item, each as what `f` makes of it. -/
theorem Reads.expressions {close : Symbol} (hc : Symbol.IsCloser close) {es : List Expr}
    {f : Expr → Expr}
    (h : ∀ e ∈ es, ReadsAt rules.expression Level.assignment e.lexemes (f e))
    (hwf : ∀ e ∈ es, e.WellFormed) :
    Reads (Parse.commaList close rules.expression) (commaLexemes (exprsLexemes es) ++ [.mark close])
      (fun _ => True) (List.map Expr.withoutSpans) ((es.map f).map Expr.withoutSpans) := by
  rw [exprsLexemes_eq, List.map_map]
  refine Reads.commaList hc.1 es (fun e he => (h e he).of_stop ?_)
    fun e he => startsAt_ne_closer (e.startsAt (hwf e he)) e.one_le_level hc
  rintro k (rfl | rfl)
  · decide
  · rw [hc.2.1]
    decide

theorem isCloser_rightParen : Symbol.IsCloser .rightParen := ⟨by decide, rfl, rfl⟩

theorem isCloser_rightBracket : Symbol.IsCloser .rightBracket := ⟨by decide, rfl, rfl⟩

theorem isCloser_rightBrace : Symbol.IsCloser .rightBrace := ⟨by decide, rfl, rfl⟩

theorem Reads.arguments {es : List Expr} {f : Expr → Expr}
    (h : ∀ e ∈ es, ReadsAt rules.expression Level.assignment e.lexemes (f e))
    (hwf : ∀ e ∈ es, e.WellFormed) :
    Reads (arguments rules)
      (.mark .leftParen :: (commaLexemes (exprsLexemes es) ++ [.mark .rightParen]))
      (fun _ => True) (List.map Expr.withoutSpans) ((es.map f).map Expr.withoutSpans) :=
  (Reads.expressions isCloser_rightParen h hwf).afterMark

theorem ReadsAt.array {es : List Expr} {f : Expr → Expr} {span : Span}
    (h : ∀ e ∈ es, ReadsAt rules.expression Level.assignment e.lexemes (f e))
    (hwf : ∀ e ∈ es, e.WellFormed) :
    ReadsAt (primary rules) Level.primary (Expr.array es span).lexemes
      (.array (es.map f) span) := by
  rintro b els ahead rest ⟨t, ahead', rfl, ⟨ht, -⟩, hs⟩ _
  have ht : t.kind = .symbol .leftBracket := ht
  obtain ⟨es', b', he, hv⟩ :=
    Reads.expressions isCloser_rightBracket h hwf (some t) els ahead' rest hs trivial
  refine ⟨.array es' (spanTo t.span b'), b', ?_, ?_⟩
  · rw [primary, run_bind (run_peek _)]
    simp only [Stream.next_cons, atom?, ht]
    rw [Parse.array, run_bind (run_peek _), run_bind (run_expectSymbol ht), run_bind he,
      run_bind (run_spanFrom _ _)]
    rfl
  · simp [Expr.withoutSpans, exprsWithoutSpans_eq, hv]

theorem word?_ofWord (text : String) : (Kind.ofWord text).word? = some text := by
  unfold Kind.ofWord
  split
  · rename_i k hk
    simpa [Kind.word?] using List.find?_some hk
  · repeat' split
    all_goals simp_all [Kind.word?]

theorem propertyKey?_ofWord (text : String) : propertyKey? (Kind.ofWord text) = some text := by
  have h := word?_ofWord text
  generalize Kind.ofWord text = k at h
  cases k <;> simp_all [propertyKey?, Kind.word?]

/-- No property starts with the brace that closes the object. -/
theorem startsWithKey (p : Property) :
    ∃ l rest, p.lexemes = l :: rest ∧ l.kind ≠ .symbol .rightBrace := by
  have hword : (Kind.ofWord p.key) ≠ .symbol .rightBrace := by
    intro h
    have := word?_ofWord p.key
    simp [h, Kind.word?] at this
  unfold Property.lexemes keyLexeme
  split
  · exact ⟨_, _, rfl, hword⟩
  · split
    · exact ⟨_, _, rfl, hword⟩
    · exact ⟨_, _, rfl, nofun⟩

/-- A property reads up to a comma or the brace that closes the object. -/
theorem Reads.property {p : Property} {e : Expr} (hwf : p.WellFormed)
    (h : p.shorthand = false → ReadsAt rules.expression Level.assignment p.value.lexemes e)
    (hshort : p.shorthand = true → e = p.value) :
    Reads (property rules) p.lexemes (fun k => k = .symbol .comma ∨ k = .symbol .rightBrace)
      Property.withoutSpans (Property.withoutSpans { p with value := e }) := by
  obtain ⟨key, value, shorthand⟩ := p
  intro b els ahead rest hs hstop
  cases shorthand with
  | true =>
    obtain ⟨hkey, span, hvalue⟩ := hwf
    obtain rfl : value = .identifier key span := hvalue
    obtain rfl : e = .identifier key span := hshort rfl
    obtain ⟨t, ahead', rfl, ⟨ht, -⟩, rfl⟩ := hs
    have ht : t.kind = .identifier key := ht.trans hkey.2
    have hcolon : (Stream.mk (some t) ahead' els).kind ≠ .symbol .colon := by
      rcases hstop with h | h <;> simp [h]
    refine ⟨⟨key, .identifier key t.span, true⟩, some t, ?_, rfl⟩
    rw [Parse.property, run_bind (run_peek _)]
    simp only [Stream.next_cons, ht, propertyKey?, Kind.word?]
    rw [run_bind (run_advance _ _ _ _), run_bind (run_eat_other hcolon)]
    rfl
  | false =>
    obtain ⟨t, ahead₁, rfl, ⟨ht, -⟩, u, ahead₂, rfl, ⟨hu, -⟩, hs⟩ := hs
    have hu : u.kind = .symbol .colon := hu
    have hkey : propertyKey? t.kind = some key := by
      rw [ht]
      unfold keyLexeme
      split
      · exact propertyKey?_ofWord key
      · rfl
    obtain ⟨e', b', he, hv⟩ := h rfl (some u) els ahead₂ rest hs
      (by rcases hstop with h | h <;> rw [h] <;> decide)
    refine ⟨⟨key, e', false⟩, b', ?_, by simp [Property.withoutSpans, hv]⟩
    rw [Parse.property, run_bind (run_peek _)]
    simp only [Stream.next_cons, hkey]
    rw [run_bind (run_advance _ _ _ _), run_bind (run_eat hu)]
    simp only [if_true]
    rw [run_bind he]
    rfl

theorem ReadsAt.object {ps : List Property} {f : Expr → Expr} {span : Span}
    (hwf : propertiesWellFormed ps)
    (h : ∀ p ∈ ps, p.shorthand = false →
      ReadsAt rules.expression Level.assignment p.value.lexemes (f p.value))
    (hshort : ∀ p ∈ ps, p.shorthand = true → f p.value = p.value) :
    ReadsAt (primary rules) Level.primary (Expr.object ps span).lexemes
      (.object (ps.map fun p => { p with value := f p.value }) span) := by
  intro b els ahead rest hs _
  simp only [Expr.lexemes, propertiesLexemes_eq] at hs
  obtain ⟨t, ahead', rfl, ⟨ht, -⟩, hs⟩ := hs
  have ht : t.kind = .symbol .leftBrace := ht
  have hwf' := propertiesWellFormed_iff.mp hwf
  obtain ⟨ps', b', he, hv⟩ :=
    Reads.commaList (by decide) ps
      (fun p hp => Reads.property (hwf' p hp) (h p hp) (hshort p hp)) (fun p _ => startsWithKey p)
      (some t) els ahead' rest hs trivial
  refine ⟨.object ps' (spanTo t.span b'), b', ?_, ?_⟩
  · rw [primary, run_bind (run_peek _)]
    simp only [Stream.next_cons, atom?, ht]
    rw [Parse.object, run_bind (run_peek _), run_bind (run_expectSymbol ht), run_bind he,
      run_bind (run_spanFrom _ _)]
    rfl
  · simp [Expr.withoutSpans, propertiesWithoutSpans_eq, hv]

/-! ### Members, calls and `new` -/

/-- The lexemes are read as an expression with which the members and calls behind it go on, if the
first of them starts with a mark. -/
def ReadsChainBefore (rules : Rules) (mark : Symbol) (ls : List Lexeme) (e : Expr) : Prop :=
  ∀ b els ahead rest, Shows ls ahead rest → nextKind rest = .symbol mark →
    ∃ start n e' b', rest.length < n ∧
      callMember rules ⟨b, ahead, els⟩ = chain rules start n e' ⟨b', rest, els⟩ ∧
      e'.withoutSpans = e.withoutSpans

theorem ReadsChain.before {ls : List Lexeme} {e : Expr} (h : ReadsChain rules ls e)
    (mark : Symbol) : ReadsChainBefore rules mark ls e :=
  fun b els ahead rest hs _ => h b els ahead rest hs

/-- A name behind a dot is read, whatever comes behind it. -/
theorem ReadsChain.member {ls : List Lexeme} {base property : Expr} {optional : Bool} {span : Span}
    (h : ReadsChainBefore rules (if optional then .optionalChain else .dot) ls base)
    (hp : property.isWord = true) :
    ReadsChain rules (memberLexemes ls property.lexemes false optional)
      (.member base property false optional span) := by
  intro b els ahead rest hs
  cases property with
  | identifier x pspan =>
    have hs : Shows (ls ++ .mark (if optional then .optionalChain else .dot) :: [.word x])
        ahead rest := by
      cases optional <;> exact hs
    obtain ⟨middle, h₁, t, ahead₁, rfl, ⟨ht, -⟩, u, ahead₂, rfl, ⟨hu, -⟩, rfl⟩ := shows_append.mp hs
    have hu : u.kind.word? = some x := by rw [hu]; exact word?_ofWord x
    obtain ⟨start, n, e', b', hn, hc, hv⟩ := h b els ahead _ h₁ ht
    simp only [List.length_cons] at hn
    obtain ⟨m, rfl⟩ : ∃ m, n = m + 1 := ⟨n - 1, by omega⟩
    exact ⟨start, m, _, some u, by omega, hc.trans (run_chain_member ht hu),
      by simp [Expr.withoutSpans, hv]⟩
  | _ => cases hp

/-- An expression in brackets is read as a property. -/
theorem ReadsChain.computed {ls ms : List Lexeme} {base property : Expr} {span : Span}
    (h : ReadsChainBefore rules .leftBracket ls base)
    (hp : ReadsAt rules.expression Level.assignment ms property) :
    ReadsChain rules (memberLexemes ls ms true false) (.member base property true false span) := by
  intro b els ahead rest hs
  simp only [memberLexemes, List.append_assoc, List.cons_append] at hs
  obtain ⟨middle, h₁, t, ahead₁, rfl, ⟨ht, -⟩, hs⟩ := shows_append.mp hs
  obtain ⟨middle, h₂, u, ahead₂, rfl, ⟨hu, -⟩, rfl⟩ := shows_append.mp hs
  have hu : u.kind = .symbol .rightBracket := hu
  obtain ⟨start, n, e', b', hn, hc, hv⟩ := h b els ahead _ h₁ ht
  obtain ⟨e₁, b₁, he, hv₁⟩ := hp (some t) els ahead₁ _ h₂
    (by show (nextKind (u :: ahead₂)).joinLevel < _; rw [nextKind_cons, hu]; decide)
  have hlen := shows_length h₂
  simp only [List.length_cons] at hn hlen
  obtain ⟨m, rfl⟩ : ∃ m, n = m + 1 := ⟨n - 1, by omega⟩
  exact ⟨start, m, _, some u, by omega, hc.trans (run_chain_computed ht he hu),
    by simp [Expr.withoutSpans, hv, hv₁]⟩

theorem ReadsChain.call {ls ms : List Lexeme} {callee : Expr} {es : List Expr} {span : Span}
    (h : ReadsChain rules ls callee)
    (ha : Reads (arguments rules) (.mark .leftParen :: ms) (fun _ => True)
      (List.map Expr.withoutSpans) (es.map Expr.withoutSpans)) :
    ReadsChain rules (ls ++ .mark .leftParen :: ms) (.call callee es span) := by
  intro b els ahead rest hs
  obtain ⟨middle, h₁, h₂⟩ := shows_append.mp hs
  obtain ⟨start, n, e', b', hn, hc, hv⟩ := h b els ahead _ h₁
  obtain ⟨es', b₁, he, hvs⟩ := ha b' els middle rest h₂ trivial
  have hlen := shows_length h₂
  obtain ⟨t, ahead₁, rfl, ⟨ht, -⟩, -⟩ := h₂
  simp only [List.length_cons] at hn hlen
  obtain ⟨m, rfl⟩ : ∃ m, n = m + 1 := ⟨n - 1, by omega⟩
  exact ⟨start, m, _, b₁, by omega, hc.trans (run_chain_call ht he),
    by simp [Expr.withoutSpans, hv, exprsWithoutSpans_eq, hvs]⟩

/-- The lexemes are read as the callee of `new`, behind which names with dots may still come. -/
def ReadsCallee (rules : Rules) (ls : List Lexeme) (e : Expr) : Prop :=
  ∀ start n b els ahead rest, Shows ls ahead rest → ahead.length < n →
    ∃ m e' b', rest.length < m ∧
      (primary rules >>= newCallee start n) ⟨b, ahead, els⟩ =
        newCallee start m e' ⟨b', rest, els⟩ ∧
      e'.withoutSpans = e.withoutSpans

theorem ReadsCallee.of_primary {ls : List Lexeme} {e : Expr}
    (h : ReadsAt (primary rules) Level.primary ls e) : ReadsCallee rules ls e := by
  intro start n b els ahead rest hs hn
  obtain ⟨e', b', he, hv⟩ := h b els ahead rest hs (joinLevel_lt_primary _)
  have := shows_length hs
  exact ⟨n, e', b', by omega, run_bind he, hv⟩

theorem ReadsCallee.member {ls : List Lexeme} {base property : Expr} {span : Span}
    (h : ReadsCallee rules ls base) (hp : property.isWord = true) :
    ReadsCallee rules (memberLexemes ls property.lexemes false false)
      (.member base property false false span) := by
  intro start n b els ahead rest hs hn
  cases property with
  | identifier x pspan =>
    have hs : Shows (ls ++ .mark .dot :: [.word x]) ahead rest := hs
    obtain ⟨middle, h₁, t, ahead₁, rfl, ⟨ht, -⟩, u, ahead₂, rfl, ⟨hu, -⟩, rfl⟩ := shows_append.mp hs
    have ht : t.kind = .symbol .dot := ht
    have hu : u.kind.word? = some x := by rw [hu]; exact word?_ofWord x
    obtain ⟨m, e', b', hm, hc, hv⟩ := h start n b els ahead _ h₁ hn
    simp only [List.length_cons] at hm
    obtain ⟨k, rfl⟩ : ∃ k, m = k + 1 := ⟨m - 1, by omega⟩
    refine ⟨k, .member e' (.identifier x u.span) false false (spanTo start (some u)), some u,
      by omega, hc.trans ?_, by simp [Expr.withoutSpans, hv]⟩
    rw [newCallee, run_bind (run_eat ht)]
    simp only [if_true]
    rw [run_bind (run_propertyName hu), run_bind (run_spanFrom _ _)]
  | _ => cases hp

/-- A callee ends before a token that is no dot. -/
theorem ReadsCallee.run {ls : List Lexeme} {e : Expr} (h : ReadsCallee rules ls e) (start : Span)
    {b : Option Token} {els : List String} {ahead rest : List Token} (hs : Shows ls ahead rest)
    (hdot : nextKind rest ≠ .symbol .dot) :
    ∃ first s₁ e' b', primary rules ⟨b, ahead, els⟩ = .ok first s₁ ∧
      newCallee start (ahead.length + 1) first s₁ = .ok e' ⟨b', rest, els⟩ ∧
      e'.withoutSpans = e.withoutSpans := by
  obtain ⟨m, e', b', hm, hc, hv⟩ := h start (ahead.length + 1) b els ahead rest hs (by omega)
  obtain ⟨k, rfl⟩ : ∃ k, m = k + 1 := ⟨m - 1, by omega⟩
  have hstop : newCallee start (k + 1) e' ⟨b', rest, els⟩ = .ok e' ⟨b', rest, els⟩ := by
    rw [newCallee, run_bind (run_eat_other (by simpa using hdot))]
    rfl
  rw [hstop] at hc
  obtain ⟨first, s₁, hfirst, hcallee⟩ := bind_eq_ok.mp hc
  exact ⟨first, s₁, e', b', hfirst, hcallee, hv⟩

theorem run_callMember_new {b b' : Option Token} {t : Token} {ahead rest : List Token}
    {els : List String} {e : Expr} (ht : t.kind = .keyword .new_)
    (h : Parse.new rules ⟨b, t :: ahead, els⟩ = .ok e ⟨b', rest, els⟩) :
    callMember rules ⟨b, t :: ahead, els⟩ =
      chain rules t.span (rest.length + 1) e ⟨b', rest, els⟩ := by
  rw [callMember, run_bind (run_peek _), run_bind (run_check _ _)]
  simp only [Stream.kind_mk, nextKind_cons, ht, beq_self_eq_true, if_true]
  rw [run_bind h, run_bind (run_budget _)]
  rfl

theorem ReadsChain.new {ls ms : List Lexeme} {callee : Expr} {es : List Expr} {span : Span}
    (h : ReadsCallee rules ls callee)
    (ha : Reads (arguments rules) (.mark .leftParen :: ms) (fun _ => True)
      (List.map Expr.withoutSpans) (es.map Expr.withoutSpans)) :
    ReadsChain rules (.keyword .new_ :: (ls ++ .mark .leftParen :: ms)) (.new callee es span) := by
  rintro b els ahead rest ⟨t, ahead₁, rfl, ⟨ht, -⟩, hs⟩
  have ht : t.kind = .keyword .new_ := ht
  obtain ⟨middle, h₁, h₂⟩ := shows_append.mp hs
  have hparen : nextKind middle = .symbol .leftParen := h₂.nextKind
  obtain ⟨first, s₁, e', b', hfirst, hcallee, hv⟩ := h.run t.span h₁ (by simp [hparen])
  obtain ⟨es', b₁, he, hvs⟩ := ha b' els middle rest h₂ trivial
  refine ⟨t.span, rest.length + 1, .new e' es' (spanTo t.span b₁), b₁, by omega,
    run_callMember_new ht ?_, by simp [Expr.withoutSpans, hv, exprsWithoutSpans_eq, hvs]⟩
  rw [Parse.new, run_bind (run_peek _), run_bind (run_advance _ _ _ _), run_bind (run_budget _),
    run_bind hfirst]
  simp only [Stream.next_cons]
  rw [run_bind hcallee, run_bind (run_check _ _)]
  simp only [Stream.kind_mk, hparen, beq_self_eq_true, if_true]
  rw [run_bind he, run_bind (run_spanFrom _ _)]
  rfl

/-- Before a member that is in brackets or optional, `new` has no arguments. -/
theorem ReadsCallee.newBefore {ls : List Lexeme} {callee : Expr} {span : Span} {mark : Symbol}
    (h : ReadsCallee rules ls callee) (hdot : mark ≠ .dot) (hparen : mark ≠ .leftParen) :
    ReadsChainBefore rules mark (.keyword .new_ :: ls) (.new callee [] span) := by
  rintro b els ahead rest ⟨t, ahead₁, rfl, ⟨ht, -⟩, hs⟩ hmark
  have ht : t.kind = .keyword .new_ := ht
  obtain ⟨first, s₁, e', b', hfirst, hcallee, hv⟩ := h.run t.span hs (by simpa [hmark] using hdot)
  refine ⟨t.span, rest.length + 1, .new e' [] (spanTo t.span b'), b', by omega,
    run_callMember_new ht ?_, by simp [Expr.withoutSpans, hv, exprsWithoutSpans_eq]⟩
  rw [Parse.new, run_bind (run_peek _), run_bind (run_advance _ _ _ _), run_bind (run_budget _),
    run_bind hfirst]
  simp only [Stream.next_cons]
  rw [run_bind hcallee, run_bind (run_check _ _)]
  have hkind : (Kind.symbol mark == Kind.symbol .leftParen) = false := by simpa using hparen
  simp only [Stream.kind_mk, hmark, hkind, Bool.false_eq_true, if_false]
  rfl

/-! ### Operators -/

theorem UnaryOp.ofKind?_lexeme (op : UnaryOp) : UnaryOp.ofKind? op.lexeme.kind = some op := by
  cases op <;> rfl

theorem ReadsAt.unary {ls : List Lexeme} {op : UnaryOp} {e : Expr} {span : Span}
    (h : ReadsAt rules.operand Level.unary ls e) :
    ReadsAt (operand rules) Level.unary (op.lexeme :: ls) (.unary op e span) := by
  rintro b els ahead rest ⟨t, ahead₁, rfl, ⟨ht, -⟩, hs⟩ hstop
  obtain ⟨e', b', he, hv⟩ := h (some t) els ahead₁ rest hs hstop
  refine ⟨.unary op e' (spanTo t.span b'), b', ?_, by simp [Expr.withoutSpans, hv]⟩
  rw [operand, run_bind (run_peek _), run_bind (run_peekKind _)]
  simp only [Stream.kind_mk, nextKind_cons, ht, UnaryOp.ofKind?_lexeme]
  rw [run_bind (run_advance _ _ _ _), run_bind he, run_bind (run_spanFrom _ _)]
  rfl

theorem run_checkUpdateTarget {e : Expr} (h : e.isTarget = true) (s : Stream) :
    checkUpdateTarget e s = .ok () s := by
  simp [checkUpdateTarget, h]

theorem ReadsAt.updateInFront {ls : List Lexeme} {op : UpdateOp} {e : Expr} {span : Span}
    (h : ReadsAt rules.operand Level.unary ls e) (htarget : e.isTarget = true) :
    ReadsAt (operand rules) Level.unary (.mark op.symbol :: ls) (.update op true e span) := by
  rintro b els ahead rest ⟨t, ahead₁, rfl, ⟨ht, -⟩, hs⟩ hstop
  have ht : t.kind = .symbol op.symbol := ht
  obtain ⟨e', b', he, hv⟩ := h (some t) els ahead₁ rest hs hstop
  have hnone : UnaryOp.ofKind? (.symbol op.symbol) = none := by cases op <;> rfl
  have hsome : UpdateOp.ofKind? (.symbol op.symbol) = some op := by cases op <;> rfl
  refine ⟨.update op true e' (spanTo t.span b'), b', ?_, by simp [Expr.withoutSpans, hv]⟩
  rw [operand, run_bind (run_peek _), run_bind (run_peekKind _)]
  simp only [Stream.kind_mk, nextKind_cons, ht, hnone, hsome]
  rw [run_bind (run_advance _ _ _ _), run_bind he,
    run_bind (run_checkUpdateTarget ((Expr.isTarget_congr hv).trans htarget) _),
    run_bind (run_spanFrom _ _)]
  rfl

theorem ReadsAt.updateBehind {ls : List Lexeme} {op : UpdateOp} {e : Expr} {span : Span}
    (h : ReadsChain rules ls e) (htarget : e.isTarget = true) (hstart : StartsAt Level.call ls) :
    ReadsAt (operand rules) Level.unary (ls ++ [{ kind := .symbol op.symbol, sameLine := true }])
      (.update op false e span) := by
  intro b els ahead rest hs _
  obtain ⟨l, ls, rfl, hl⟩ := hstart
  obtain ⟨middle, h₁, t, ahead₁, rfl, ⟨ht, hline, -⟩, rfl⟩ := shows_append.mp hs
  have ht : t.kind = .symbol op.symbol := ht
  obtain ⟨start, n, e', b', hn, hc, hv⟩ := h b els ahead _ h₁
  have hjoin : (Stream.mk b' (t :: ahead₁) els).kind.joinLevel < Level.call := by
    rw [Stream.kind_mk, nextKind_cons, ht]
    cases op <;> decide
  rw [run_chain_stop (by omega) hjoin] at hc
  have hsome : UpdateOp.ofKind? (.symbol op.symbol) = some op := by cases op <;> rfl
  refine ⟨.update op false e' (spanTo (ahead.head?.getD .past).span (some t)), some t, ?_,
    by simp [Expr.withoutSpans, hv]⟩
  rw [run_operand_postfixed (by simpa [h₁.nextKind] using isOperatorInFront_of_startLevel hl),
    postfixed, run_bind (run_peek _), run_bind hc, run_bind (run_peek _)]
  simp only [Stream.next_cons, hline rfl, Bool.false_eq_true, if_false, ht, hsome]
  rw [run_bind (run_checkUpdateTarget ((Expr.isTarget_congr hv).trans htarget) _),
    run_bind (run_advance _ _ _ _), run_bind (run_spanFrom _ _)]
  rfl

theorem ReadsAt.conditional {ls ms ks : List Lexeme} {test consequent alternate : Expr}
    {span : Span} {n : Nat} (htest : ReadsOperands rules n ls test) (hlevel : 3 ≤ n)
    (hconsequent : ReadsAt rules.expression Level.assignment ms consequent)
    (halternate : ReadsAt rules.expression Level.assignment ks alternate) :
    ReadsAt (conditional rules) Level.assignment
      (ls ++ .mark .question :: (ms ++ .mark .colon :: ks))
      (.conditional test consequent alternate span) := by
  intro b els ahead rest hs hstop
  obtain ⟨middle, h₁, t, ahead₁, rfl, ⟨ht, -⟩, hs⟩ := shows_append.mp hs
  obtain ⟨middle, h₂, u, ahead₂, rfl, ⟨hu, -⟩, h₃⟩ := shows_append.mp hs
  have ht : t.kind = .symbol .question := ht
  have hu : u.kind = .symbol .colon := hu
  obtain ⟨e₁, b₁, he₁, hv₁⟩ := htest.climb (BinaryOp.maxPrecedence - 0) 0 (by decide) (by omega)
    (by decide) b els ahead _ h₁
    (by show (nextKind (t :: ahead₁)).joinLevel < _; rw [nextKind_cons, ht]; decide)
  obtain ⟨e₂, b₂, he₂, hv₂⟩ := hconsequent (some t) els ahead₁ _ h₂
    (by show (nextKind (u :: ahead₂)).joinLevel < _; rw [nextKind_cons, hu]; decide)
  obtain ⟨e₃, b₃, he₃, hv₃⟩ := halternate (some u) els ahead₂ rest h₃ hstop
  refine ⟨.conditional e₁ e₂ e₃ (spanTo (ahead.head?.getD .past).span b₃), b₃, ?_,
    by simp [Expr.withoutSpans, hv₁, hv₂, hv₃]⟩
  rw [Parse.conditional, run_bind (run_peek _), run_bind (p := Parse.binary rules 0) he₁,
    run_bind (run_eat ht)]
  simp only [if_true]
  rw [run_bind he₂, run_bind (run_expectSymbol hu), run_bind he₃, run_bind (run_spanFrom _ _)]
  rfl

theorem ReadsAt.assignment {ls ms : List Lexeme} {target value : Expr} {op : AssignOp}
    {span : Span} {level : Nat} (htarget : ReadsOperands rules level ls target)
    (hlevel : 3 ≤ level) (hno : NoArrow ls) (htarget' : target.isTarget = true)
    (hvalue : ReadsAt rules.expression Level.assignment ms value) :
    ReadsAt (expression rules) Level.assignment (ls ++ .mark op.symbol :: ms)
      (.assignment target op value span) := by
  intro b els ahead rest hs hstop
  obtain ⟨middle, h₁, t, ahead₁, rfl, ⟨ht, -⟩, h₂⟩ := shows_append.mp hs
  have ht : t.kind = .symbol op.symbol := ht
  obtain ⟨e₁, b₁, he₁, hv₁⟩ := ReadsAt.conditional_of_operands htarget hlevel b els ahead _ h₁
    (by show (nextKind (t :: ahead₁)).joinLevel < _; rw [nextKind_cons, ht]; cases op <;> decide)
  obtain ⟨e₂, b₂, he₂, hv₂⟩ := hvalue (some t) els ahead₁ rest h₂ hstop
  have hsome : AssignOp.ofKind? (.symbol op.symbol) = some op := by cases op <;> rfl
  refine ⟨.assignment e₁ op e₂ (spanTo (ahead.head?.getD .past).span b₂), b₂, ?_,
    by simp [Expr.withoutSpans, hv₁, hv₂]⟩
  rw [expression, run_bind (run_get _),
    hno b els ahead _ h₁ (by rw [nextKind_cons, ht]; cases op <;> rintro ⟨⟩)]
  simp only [Bool.false_eq_true, if_false]
  rw [run_bind (run_peek _), run_bind he₁, run_bind (run_peekKind _)]
  simp only [Stream.kind_mk, nextKind_cons, ht, hsome, (Expr.isTarget_congr hv₁).trans htarget',
    if_true]
  rw [run_bind (run_advance _ _ _ _), run_bind he₂, run_bind (run_spanFrom _ _)]
  rfl

/-! ### Arrow functions -/

theorem Reads.params {xs : List String} (h : ∀ x ∈ xs, IsIdentifier x) :
    Reads params (paramLexemes xs) (fun _ => True) id xs := by
  have hitem : ∀ x ∈ xs, Reads Parse.identifier [.word x]
      (fun k => k = .symbol .comma ∨ k = .symbol .rightParen) id x := by
    rintro x hx b els ahead rest ⟨t, ahead', rfl, ⟨ht, -⟩, rfl⟩ -
    exact ⟨x, some t, run_identifier (ht.trans (h x hx).2), rfl⟩
  have hlist := Reads.commaList (v := id) isCloser_rightParen.1 xs hitem
    fun x hx => ⟨.word x, [], rfl, by
      show Kind.ofWord x ≠ _
      rw [(h x hx).2]
      nofun⟩
  simp only [List.map_id_fun] at hlist
  exact hlist.afterMark

/-- The parenthesis in front of parameters opens an arrow function if an arrow follows. -/
theorem arrowAhead_params {xs : List String} {b : Option Token} {els : List String} {t : Token}
    {ahead rest : List Token} (hs : Shows (paramLexemes xs) ahead (t :: rest))
    (ht : t.kind = .symbol .arrow) : arrowAhead ⟨b, ahead, els⟩ = true := by
  obtain ⟨u, ahead₁, rfl, ⟨hu, -⟩, hs⟩ := hs
  obtain ⟨middle, h₁, w, rest', rfl, ⟨hw, -⟩, rfl⟩ := shows_append.mp hs
  have hu : u.kind = .symbol .leftParen := hu
  have hw : w.kind = .symbol .rightParen := hw
  have hb : Balanced (commaLexemes (xs.map fun x => [.word x])) := by
    refine Balanced.commas fun ls hls => ?_
    obtain ⟨x, -, rfl⟩ := List.mem_map.mp hls
    exact Balanced.word x .nil
  simp only [arrowAhead, Stream.kind_mk, nextKind_cons, hu]
  rw [arrowAfterParens_eq, behindParens_open hu, hb ahead₁ _ 0 h₁, behindParens_close hw]
  simp [ht]

/-- An arrow function whose body is read from its lexemes. -/
theorem run_expression_arrow {xs : List String} (hxs : ∀ x ∈ xs, IsIdentifier x)
    (body : ArrowBody) {b b' : Option Token} {els : List String} {t : Token}
    {ahead ahead₁ rest : List Token} (hs : Shows (paramLexemes xs) ahead (t :: ahead₁))
    (ht : t.kind = .symbol .arrow)
    (hbody : (do
      if ← check (.symbol .leftBrace) then ArrowBody.block <$> functionBody rules
      else ArrowBody.expression <$> rules.expression : Parse ArrowBody) ⟨some t, ahead₁, els⟩ =
        .ok body ⟨b', rest, els⟩) :
    expression rules ⟨b, ahead, els⟩ =
      .ok (.arrow xs body (spanTo (ahead.head?.getD .past).span b')) ⟨b', rest, els⟩ := by
  obtain ⟨xs', b₁, hparams, rfl⟩ := Reads.params hxs b els ahead _ hs trivial
  rw [expression, run_bind (run_get _), arrowAhead_params hs ht]
  simp only [if_true]
  rw [arrow, run_bind (run_peek _), run_bind (run_check _ _)]
  obtain ⟨u, ahead₂, rfl, ⟨hu, -⟩, -⟩ := hs
  have hu : u.kind = .symbol .leftParen := hu
  simp only [Stream.kind_mk, nextKind_cons, hu, beq_self_eq_true, if_true]
  rw [run_bind hparams, run_bind (run_expectSymbol ht)]
  rw [run_bind (run_check _ _)] at hbody ⊢
  by_cases hk : (Stream.mk (some t) ahead₁ els).kind == .symbol .leftBrace
  · simp only [hk, if_true] at hbody ⊢
    rw [run_bind hbody, run_bind (run_spanFrom _ _)]
    rfl
  · simp only [hk, Bool.false_eq_true, if_false] at hbody ⊢
    rw [run_bind hbody, run_bind (run_spanFrom _ _)]
    rfl

theorem ReadsAt.arrowExpression {xs : List String} {ls : List Lexeme} {value : Expr} {span : Span}
    (hxs : ∀ x ∈ xs, IsIdentifier x) (h : ReadsAt rules.expression Level.assignment ls value)
    (hstart : ∃ l rest, ls = l :: rest ∧ l.kind ≠ .symbol .leftBrace) :
    ReadsAt (expression rules) Level.assignment (paramLexemes xs ++ .mark .arrow :: ls)
      (.arrow xs (.expression value) span) := by
  intro b els ahead rest hs hstop
  obtain ⟨middle, h₁, t, ahead₁, rfl, ⟨ht, -⟩, h₂⟩ := shows_append.mp hs
  obtain ⟨e', b', he, hv⟩ := h (some t) els ahead₁ rest h₂ hstop
  obtain ⟨l, ls, rfl, hl⟩ := hstart
  refine ⟨_, b', run_expression_arrow hxs (.expression e') h₁ ht ?_,
    by simp [Expr.withoutSpans, ArrowBody.withoutSpans, hv]⟩
  rw [run_bind (run_check _ _)]
  simp only [Stream.kind_mk, h₂.nextKind, beq_eq_false_iff_ne.mpr hl, Bool.false_eq_true, if_false]
  exact run_map he

theorem ReadsAt.arrowBlock {xs : List String} {ls : List Lexeme} {body : List Stmt} {span : Span}
    (hxs : ∀ x ∈ xs, IsIdentifier x)
    (h : Reads (functionBody rules) (.mark .leftBrace :: ls) (fun _ => True)
      (List.map Stmt.withoutSpans) (body.map Stmt.withoutSpans)) :
    ReadsAt (expression rules) Level.assignment
      (paramLexemes xs ++ .mark .arrow :: .mark .leftBrace :: ls)
      (.arrow xs (.block body) span) := by
  intro b els ahead rest hs hstop
  obtain ⟨middle, h₁, t, ahead₁, rfl, ⟨ht, -⟩, h₂⟩ := shows_append.mp hs
  obtain ⟨body', b', he, hv⟩ := h (some t) els ahead₁ rest h₂ trivial
  refine ⟨_, b', run_expression_arrow hxs (.block body') h₁ ht ?_,
    by simp [Expr.withoutSpans, ArrowBody.withoutSpans, stmtsWithoutSpans_eq, hv]⟩
  rw [run_bind (run_check _ _)]
  simp only [Stream.kind_mk, h₂.nextKind]
  exact run_map he

end Parse

end MarkupScript
