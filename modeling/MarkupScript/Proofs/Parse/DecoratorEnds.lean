import MarkupScript.Proofs.Parse.Arrow
import MarkupScript.Proofs.Parse.Delimiters
import MarkupScript.Proofs.Print.DecoratorLines

/-!
# Where a decorator ends

A decorator is a name or a call of one. What is read as more than that, because a member, a further
call or an operator follows, is no decorator. The arguments of the call end with the partner of the
parenthesis that opens them. So in a source that is a program, the arguments of a decorator are
never followed by a token that goes on with a call.
-/

namespace MarkupScript

namespace Parse

/-! ### Nothing is joined to a decorator -/

theorem kind_of_joinLevel {k : Kind} (h : ¬k.joinLevel < Level.call) :
    k = .symbol .dot ∨ k = .symbol .optionalChain ∨ k = .symbol .leftBracket ∨
      k = .symbol .leftParen := by
  cases k with
  | symbol mark => cases mark <;> first | exact absurd (by decide) h | simp
  | _ => exact absurd (show 0 < Level.call by decide) h

theorem decoratorParts?_call {callee : Expr} {es : List Expr} {span : Span}
    (h : ∀ x span, callee ≠ .identifier x span) :
    decoratorParts? (.call callee es span) = none := by
  cases callee with
  | identifier x span => exact absurd rfl (h x span)
  | _ => rfl

section

variable {rules : Rules} {e : Expr} {s s' : Stream}

/-- Behind anything but a name, members and calls make no decorator. -/
theorem chain_of_decoratorParts? {start : Span} {n : Nat} {first : Expr}
    (hfirst : ∀ x span, first ≠ .identifier x span) (h : chain rules start n first s = .ok e s')
    (he : decoratorParts? e ≠ none) : s' = s ∧ s.kind.joinLevel < Level.call := by
  suffices hall : e = first ∧ s' = s ∧ s.kind.joinLevel < Level.call from hall.2
  induction n generalizing first s with
  | zero => exact (fail_ne_ok.mp h).elim
  | succ n ih =>
    have hmember {property : Expr} {computed optional : Bool} {span : Span} {s₁ : Stream}
        (h : chain rules start n (.member first property computed optional span) s₁ = .ok e s') :
        e = first ∧ s' = s ∧ s.kind.joinLevel < Level.call := by
      obtain ⟨rfl, -⟩ := ih (by simp) h
      exact absurd rfl he
    by_cases hstop : s.kind.joinLevel < Level.call
    · rw [run_chain_stop (Nat.succ_pos n) hstop] at h
      cases h
      exact ⟨rfl, rfl, hstop⟩
    · rw [chain, run_bind (run_peekKind _)] at h
      rcases kind_of_joinLevel hstop with hk | hk | hk | hk <;> rw [hk] at h
      · obtain ⟨_, _, -, h⟩ := bind_eq_ok.mp h
        obtain ⟨property, _, -, h⟩ := bind_eq_ok.mp h
        obtain ⟨span, _, -, h⟩ := bind_eq_ok.mp h
        exact hmember h
      · obtain ⟨_, _, -, h⟩ := bind_eq_ok.mp h
        obtain ⟨property, _, -, h⟩ := bind_eq_ok.mp h
        obtain ⟨span, _, -, h⟩ := bind_eq_ok.mp h
        exact hmember h
      · obtain ⟨_, _, -, h⟩ := bind_eq_ok.mp h
        obtain ⟨property, _, -, h⟩ := bind_eq_ok.mp h
        obtain ⟨_, _, -, h⟩ := bind_eq_ok.mp h
        obtain ⟨span, _, -, h⟩ := bind_eq_ok.mp h
        exact hmember h
      · obtain ⟨es, _, -, h⟩ := bind_eq_ok.mp h
        obtain ⟨span, _, -, h⟩ := bind_eq_ok.mp h
        obtain ⟨rfl, -⟩ := ih (by simp) h
        exact absurd (decoratorParts?_call hfirst) he

/-- A name with arguments is a decorator only as the call it starts with. -/
theorem callMember_of_decoratorParts? {b : Option Token} {u v : Token} {inner : List Token}
    {els : List String} {x : String} (hu : u.kind = .identifier x)
    (hv : v.kind = .symbol .leftParen)
    (h : callMember rules ⟨b, u :: v :: inner, els⟩ = .ok e s') (he : decoratorParts? e ≠ none) :
    ∃ es, arguments rules ⟨some u, v :: inner, els⟩ = .ok es s' ∧
      s'.kind.joinLevel < Level.call := by
  have hprimary : primary rules ⟨b, u :: v :: inner, els⟩ =
      .ok (.identifier x u.span) ⟨some u, v :: inner, els⟩ := by
    have hatom : atom? u = some (.identifier x u.span) := by rw [atom?, hu]
    rw [primary, run_bind (run_peek _), Stream.next_cons, hatom]
    rfl
  have hnew : ((Stream.mk b (u :: v :: inner) els).kind == .keyword .new_) = false := by
    rw [Stream.kind_mk, nextKind_cons, hu]
    rfl
  rw [callMember, run_bind (run_peek _), run_bind (run_check _ _), hnew,
    if_neg Bool.false_ne_true, run_bind hprimary] at h
  dsimp only at h
  rw [run_bind (run_budget _), chain, run_bind (run_peekKind _), Stream.kind_mk, nextKind_cons,
    hv] at h
  obtain ⟨es, s₁, hes, h⟩ := bind_eq_ok.mp h
  rw [run_bind (run_spanFrom _ _)] at h
  obtain ⟨rfl, hstop⟩ := chain_of_decoratorParts? (by simp) h he
  exact ⟨es, hes, hstop⟩

theorem postfixed_of_decoratorParts? (h : postfixed rules s = .ok e s')
    (he : decoratorParts? e ≠ none) : callMember rules s = .ok e s' := by
  rw [postfixed, run_bind (run_peek _)] at h
  obtain ⟨operand, s₁, hoperand, h⟩ := bind_eq_ok.mp h
  rw [run_bind (run_peek _)] at h
  split at h
  · obtain ⟨rfl, rfl⟩ := pure_eq_ok.mp h
    exact hoperand
  · cases hop : UpdateOp.ofKind? s₁.next.kind with
    | none =>
      rw [hop] at h
      obtain ⟨rfl, rfl⟩ := pure_eq_ok.mp h
      exact hoperand
    | some op =>
      rw [hop] at h
      obtain ⟨_, _, -, h⟩ := bind_eq_ok.mp h
      obtain ⟨_, _, -, h⟩ := bind_eq_ok.mp h
      obtain ⟨_, _, -, h⟩ := bind_eq_ok.mp h
      obtain ⟨rfl, -⟩ := pure_eq_ok.mp h
      exact absurd rfl he

/-- An operator that is taken makes something else of what stands in front of it. -/
theorem operators_of_decoratorParts? {right : Nat → Parse Expr} {start : Span} {least n : Nat}
    {left : Expr} (h : operators right start least n left s = .ok e s')
    (he : decoratorParts? e ≠ none) :
    e = left ∧ s' = s ∧ ∀ op, BinaryOp.ofKind? s.kind = some op → op.precedence ≤ least := by
  induction n generalizing left s with
  | zero => exact (fail_ne_ok.mp h).elim
  | succ n ih =>
    rw [operators, run_bind (run_peekKind _)] at h
    cases hop : BinaryOp.ofKind? s.kind with
    | none =>
      rw [hop] at h
      obtain ⟨rfl, rfl⟩ := pure_eq_ok.mp h
      exact ⟨rfl, rfl, by simp⟩
    | some op =>
      rw [hop] at h
      dsimp only at h
      split at h
      · next hleast =>
        obtain ⟨rfl, rfl⟩ := pure_eq_ok.mp h
        exact ⟨rfl, rfl, by simpa using hleast⟩
      · obtain ⟨_, _, -, h⟩ := bind_eq_ok.mp h
        obtain ⟨_, _, -, h⟩ := bind_eq_ok.mp h
        obtain ⟨_, _, -, h⟩ := bind_eq_ok.mp h
        obtain ⟨rfl, -⟩ := ih h
        exact absurd rfl he

theorem binary_of_decoratorParts? (h : binary rules 0 s = .ok e s')
    (he : decoratorParts? e ≠ none) :
    operand rules s = .ok e s' ∧ BinaryOp.ofKind? s'.kind = none := by
  rw [binary, BinaryOp.maxPrecedence, Nat.sub_zero, climb, run_bind (run_peek _)] at h
  obtain ⟨first, s₁, hfirst, h⟩ := bind_eq_ok.mp h
  rw [run_bind (run_budget _)] at h
  obtain ⟨rfl, rfl, hop⟩ := operators_of_decoratorParts? h he
  refine ⟨hfirst, Option.eq_none_iff_forall_ne_some.mpr fun op hsome => ?_⟩
  have hleast := hop op hsome
  have hbounds := op.precedence_bounds
  omega

theorem conditional_of_decoratorParts? (h : conditional rules s = .ok e s')
    (he : decoratorParts? e ≠ none) : binary rules 0 s = .ok e s' := by
  rw [conditional, run_bind (run_peek _)] at h
  obtain ⟨test, s₁, htest, h⟩ := bind_eq_ok.mp h
  by_cases hquestion : s₁.kind = .symbol .question
  · obtain ⟨took, s₂, heat, h⟩ := bind_eq_ok.mp h
    obtain rfl := eat_eq_true heat hquestion
    rw [if_pos rfl] at h
    obtain ⟨_, _, -, h⟩ := bind_eq_ok.mp h
    obtain ⟨_, _, -, h⟩ := bind_eq_ok.mp h
    obtain ⟨_, _, -, h⟩ := bind_eq_ok.mp h
    obtain ⟨_, _, -, h⟩ := bind_eq_ok.mp h
    obtain ⟨rfl, -⟩ := pure_eq_ok.mp h
    exact absurd rfl he
  · rw [run_bind (run_eat_other hquestion), if_neg Bool.false_ne_true] at h
    obtain ⟨rfl, rfl⟩ := pure_eq_ok.mp h
    exact htest

theorem expression_of_decoratorParts? (harrow : arrowAhead s = false)
    (h : expression rules s = .ok e s') (he : decoratorParts? e ≠ none) :
    conditional rules s = .ok e s' := by
  rw [expression, run_bind (run_get _), harrow, if_neg Bool.false_ne_true,
    run_bind (run_peek _)] at h
  obtain ⟨target, s₁, htarget, h⟩ := bind_eq_ok.mp h
  rw [run_bind (run_peekKind _)] at h
  cases hop : AssignOp.ofKind? s₁.kind with
  | none =>
    rw [hop] at h
    obtain ⟨rfl, rfl⟩ := pure_eq_ok.mp h
    exact htarget
  | some op =>
    rw [hop] at h
    dsimp only at h
    split at h
    · obtain ⟨_, _, -, h⟩ := bind_eq_ok.mp h
      obtain ⟨_, _, -, h⟩ := bind_eq_ok.mp h
      obtain ⟨_, _, -, h⟩ := bind_eq_ok.mp h
      obtain ⟨rfl, -⟩ := pure_eq_ok.mp h
      exact absurd rfl he
    · obtain ⟨_, _, hfail, -⟩ := bind_eq_ok.mp h
      exact (fail_ne_ok.mp hfail).elim

/-- A decorator with arguments ends where they end, and what follows does not go on with it. -/
theorem arguments_of_decoratorParts? {b : Option Token} {u v : Token} {inner : List Token}
    {els : List String} {x : String} (hu : u.kind = .identifier x)
    (hv : v.kind = .symbol .leftParen)
    (h : expression rules ⟨b, u :: v :: inner, els⟩ = .ok e s') (he : decoratorParts? e ≠ none) :
    ∃ es, arguments rules ⟨some u, v :: inner, els⟩ = .ok es s' ∧ s'.kind.goesOn = false := by
  have harrow : arrowAhead ⟨b, u :: v :: inner, els⟩ = false := by
    simp [arrowAhead, hu, hv]
  have hconditional := expression_of_decoratorParts? harrow h he
  obtain ⟨hoperand, hbinary⟩ :=
    binary_of_decoratorParts? (conditional_of_decoratorParts? hconditional he) he
  have hfront : isOperatorInFront (Stream.mk b (u :: v :: inner) els).kind = false := by
    rw [Stream.kind_mk, nextKind_cons, hu]
    rfl
  rw [run_operand_postfixed hfront] at hoperand
  obtain ⟨es, hes, hstop⟩ :=
    callMember_of_decoratorParts? hu hv (postfixed_of_decoratorParts? hoperand he) he
  refine ⟨es, hes, ?_⟩
  generalize s'.kind = k at hbinary hstop
  unfold Kind.goesOn
  split
  · exact absurd hstop (by decide)
  · exact absurd hstop (by decide)
  · cases hbinary
  · cases hbinary
  · rfl

end

/-! ### The partner of a parenthesis -/

theorem isFlat_of_isPlain {k : Kind} (h : k.isPlain = true) (hend : k ≠ .endOfInput) :
    isFlat k = true := by
  unfold isFlat
  split
  · cases h
  · cases h
  · exact absurd rfl hend
  · rfl

/-- Looking for the partner of a parenthesis passes over matched tokens. -/
theorem behindParens_matched {taken : List Token} (h : Matched taken)
    (hend : ∀ t ∈ taken, t.kind ≠ .endOfInput) (depth : Nat) (rest : List Token) :
    behindParens (depth + 1) (taken ++ rest) = behindParens (depth + 1) rest := by
  induction h generalizing depth rest with
  | nil => rfl
  | plain ht _ ih =>
    rw [List.cons_append, behindParens_flat (isFlat_of_isPlain ht (hend _ (by simp)))]
    exact ih (fun t hm => hend t (by simp [hm])) depth rest
  | @pair t u m c inner ts ht hu hc _ _ ihinner ih =>
    have hinner := ihinner fun t hm => hend t (by simp [hm])
    have hts := ih (fun t hm => hend t (by simp [hm])) depth rest
    rw [List.cons_append, List.append_assoc, List.cons_append]
    by_cases hparen : c = .rightParen
    · subst hparen
      cases hc
      rw [behindParens_open ht, hinner, behindParens_close hu, if_neg (Nat.succ_ne_zero depth), hts]
    · have hflat : isFlat (.symbol m) = true ∧ isFlat (.symbol c) = true := by
        cases c <;> cases hc <;> first | exact ⟨rfl, rfl⟩ | exact absurd rfl hparen
      rw [behindParens_flat (ht ▸ hflat.1), hinner, behindParens_flat (hu ▸ hflat.2), hts]

/-- Arguments end with the partner of the parenthesis that opens them. -/
theorem behindParens_of_arguments {rules : Rules} (hrules : rules.Close) {b : Option Token}
    {v : Token} {inner : List Token} {els : List String} {es : List Expr} {s' : Stream}
    (h : arguments rules ⟨b, v :: inner, els⟩ = .ok es s')
    (hend : ∀ t ∈ inner.dropLast, t.kind ≠ .endOfInput) :
    behindParens 1 inner = some s'.ahead := by
  obtain ⟨_, s₁, hopen, h⟩ := bind_eq_ok.mp h
  obtain ⟨_, _, ⟨⟩, -, rfl⟩ := expectSymbol_eq_ok hopen
  rw [commaList, run_bind (run_budget _)] at h
  obtain ⟨items, s₂, hloop, h⟩ := bind_eq_ok.mp h
  obtain ⟨_, s₃, hclose, h⟩ := bind_eq_ok.mp h
  obtain ⟨-, rfl⟩ := pure_eq_ok.mp h
  obtain ⟨w, rest, hrest, hw, rfl⟩ := expectSymbol_eq_ok hclose
  obtain ⟨taken, htaken, hmatched⟩ :=
    (Takes.commaList_loop (hrules.expression []) _).matched hloop
  obtain rfl : inner = taken ++ w :: rest := hrest ▸ htaken
  rw [List.dropLast_append_cons] at hend
  rw [behindParens_matched hmatched fun t hm => hend t (by simp [hm]), behindParens_close hw,
    if_pos rfl]

/-! ### Decorators in programs -/

/-- In tokens, what follows the arguments of a decorator does not go on with its call. -/
def DecoratorsEnd (tokens : List Token) : Prop :=
  ∀ ⦃t u v : Token⦄ ⦃inner rest : List Token⦄ ⦃x : String⦄,
    (t :: u :: v :: inner) <:+ tokens → t.kind = .symbol .decorator → u.kind = .identifier x →
    v.kind = .symbol .leftParen → behindParens 1 inner = some rest → (nextKind rest).goesOn = false

theorem IsDecorated.goesOn_eq_false {t u v : Token} {inner rest : List Token} {x : String}
    (h : IsDecorated (t :: u :: v :: inner)) (hu : u.kind = .identifier x)
    (hv : v.kind = .symbol .leftParen) (hend : ∀ t ∈ inner.dropLast, t.kind ≠ .endOfInput)
    (hrest : behindParens 1 inner = some rest) : (nextKind rest).goesOn = false := by
  obtain ⟨n, b, els, st, s', h⟩ := h
  rw [decorator, run_bind (run_peek _)] at h
  obtain ⟨_, s₁, hmark, h⟩ := bind_eq_ok.mp h
  obtain ⟨_, _, ⟨⟩, -, rfl⟩ := expectSymbol_eq_ok hmark
  obtain ⟨e, s₂, he, h⟩ := bind_eq_ok.mp h
  have hparts : decoratorParts? e ≠ none := by
    intro hnone
    rw [hnone] at h
    exact failAt_ne_ok.mp h
  cases n with
  | zero => exact (fail_ne_ok.mp he).elim
  | succ n =>
    obtain ⟨es, hes, hstop⟩ := arguments_of_decoratorParts? hu hv he hparts
    rw [behindParens_of_arguments (Rules.close_nested n) hes hend] at hrest
    cases hrest
    exact hstop

theorem StartDecorators.isDecorated {taken rest post : List Token} {t : Token}
    (h : StartDecorators taken rest) (hrest : ∀ t ∈ rest, t.kind ≠ .symbol .decorator)
    (hsuffix : (t :: post) <:+ taken ++ rest) (ht : t.kind = .symbol .decorator) :
    IsDecorated (t :: post) := by
  induction taken with
  | nil => exact absurd ht (hrest t (hsuffix.subset (by simp)))
  | cons u taken ih =>
    rcases List.suffix_cons_iff.mp hsuffix with heq | hsuffix
    · cases heq
      exact h.1 ht
    · exact ih h.2 hsuffix

theorem mem_of_mem_dropLast {inner front : List Token} {last t : Token}
    (h : inner <:+ front ++ [last]) (ht : t ∈ inner.dropLast) : t ∈ front := by
  rcases List.eq_nil_or_concat inner with rfl | ⟨inner, last', rfl⟩
  · cases ht
  · rw [List.concat_eq_append] at h ht
    obtain ⟨before, h⟩ := h
    rw [← List.append_assoc] at h
    obtain ⟨rfl, -⟩ := List.append_inj' h rfl
    rw [List.dropLast_concat] at ht
    exact List.mem_append_right before ht

/-- In the source of a program, nothing goes on with a decorator behind its arguments. -/
theorem decoratorsEnd_of_program {front : List Token} {last : Token} {p : Program} {s' : Stream}
    (hfront : ∀ t ∈ front, t.kind ≠ .endOfInput) (hlast : last.kind = .endOfInput)
    (h : program (.ofTokens (front ++ [last])) = .ok p s') : DecoratorsEnd (front ++ [last]) := by
  intro t u v inner rest x hsuffix ht hu hv hrest
  obtain ⟨body, s₁, hbody, h⟩ := bind_eq_ok.mp h
  obtain ⟨-, rfl⟩ := pure_eq_ok.mp h
  have htakes : Takes (fun _ => True) [] (itemsWhile (· != .endOfInput) anyStatement) [] :=
    .itemsWhile anyStatement_takes
  obtain ⟨taken, htaken, -, hdecorators⟩ := htakes trivial hbody
  have hstop : s'.kind = .endOfInput := by simpa using itemsWhile_stops hbody
  have hnone : ∀ t ∈ s'.ahead, t.kind ≠ .symbol .decorator := by
    rcases taken_of_ends htaken hfront hstop with ⟨-, hnil⟩ | ⟨-, hone⟩
    · simp [hnil]
    · simp [hone, hlast]
  have hend : ∀ t ∈ inner.dropLast, t.kind ≠ .endOfInput := by
    have hinner : inner <:+ front ++ [last] :=
      .trans ⟨[t, u, v], rfl⟩ hsuffix
    exact fun t ht => hfront t (mem_of_mem_dropLast hinner ht)
  change front ++ [last] = taken ++ s'.ahead at htaken
  have hdecorated := hdecorators.isDecorated hnone (htaken ▸ hsuffix) ht
  exact hdecorated.goesOn_eq_false hu hv hend hrest

end Parse

end MarkupScript
