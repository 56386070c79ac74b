import MarkupScript.Proofs.Parse.Statements
import MarkupScript.Proofs.Print.ReadsBack
import MarkupScript.Proofs.Print.Regrouped
import MarkupScript.Proofs.Print.Sound

/-!
# Every tree is read from its lexemes

The productions put together by induction over the tree. The depth of the rules decreases from a
construct to its parts, and every part has fewer lexemes than the whole, so that as many levels as
there are lexemes are enough.
-/

namespace MarkupScript

open Parse

/-! ### Lengths -/

theorem length_lexemesParenthesisedIf (needed : Bool) (ls : List Lexeme) :
    (lexemesParenthesisedIf needed ls).length = ls.length + if needed then 2 else 0 := by
  cases needed <;> simp [lexemesParenthesisedIf]

theorem length_lexemesInPlace (e : Expr) (least : Nat) (ls : List Lexeme) :
    (e.lexemesInPlace least ls).length = ls.length + if e.level < least then 2 else 0 := by
  simp [Expr.lexemesInPlace, length_lexemesParenthesisedIf]

theorem length_le_commaLexemes {ls : List Lexeme} {lss : List (List Lexeme)} (h : ls ∈ lss) :
    ls.length ≤ (commaLexemes lss).length := by
  induction lss with
  | nil => cases h
  | cons ms lss ih =>
    cases lss with
    | nil =>
      obtain rfl := List.mem_singleton.mp h
      exact Nat.le_refl _
    | cons ks lss =>
      simp only [commaLexemes, List.length_append, List.length_cons]
      rcases List.mem_cons.mp h with rfl | h
      · omega
      · have := ih h
        omega

theorem length_le_exprsLexemes {e : Expr} {es : List Expr} (h : e ∈ es) :
    e.lexemes.length ≤ (commaLexemes (exprsLexemes es)).length := by
  rw [exprsLexemes_eq]
  exact length_le_commaLexemes (List.mem_map_of_mem h)

theorem length_le_flatten {ls : List Lexeme} {lss : List (List Lexeme)} (h : ls ∈ lss) :
    ls.length ≤ lss.flatten.length :=
  (List.sublist_flatten_of_mem h).length_le

theorem length_le_stmtsLexemes {s : Stmt} {ss : List Stmt} (h : s ∈ ss) :
    s.lexemes.length ≤ (stmtsLexemes ss).length := by
  induction ss with
  | nil => cases h
  | cons t ss ih =>
    have hlength : (onNewLine (stmtsLexemes ss)).length = (stmtsLexemes ss).length := by
      cases stmtsLexemes ss <;> rfl
    rw [stmtsLexemes, List.length_append, hlength]
    rcases List.mem_cons.mp h with rfl | h
    · omega
    · have := ih h
      omega

/-! ### Reading with enough depth -/

/-- An expression `e'` is read from the lexemes of `e` by rules that are deep enough. Behind `new`
it is read as a callee, if all of it is taken, or else taken apart. -/
structure Expr.IsReadAs (e e' : Expr) : Prop where
  isPlainChain_eq : e'.isPlainChain = e.isPlainChain
  reads : ∀ n, e.lexemes.length ≤ n → ReadsAs (.nested n) e.level e.lexemes e'
  readsCallee : Level.call ≤ e.level → e.isPlainChain = true →
    ∀ n, e.lexemes.length ≤ n → ReadsCallee (.nested n) e.lexemes e'
  readsApart : e.isPlainChain = false → e.startsWithNew = false →
    ∀ n, e.lexemes.length ≤ n → ReadsChain (.nested n) (.keyword .new_ :: e.lexemes) e'.underNew

/-- A statement `s'` is read from the lexemes of `s` by rules that are deep enough. -/
def Stmt.IsReadAs (s s' : Stmt) : Prop :=
  ∀ n, s.lexemes.length ≤ n → ReadsStmt (statement (.nested n)) s.lexemes s s'

namespace Expr.IsReadAs

variable {e e' : Expr} {n : Nat}

theorem expression (h : e.IsReadAs e') (hn : e.lexemes.length ≤ n) :
    ReadsAt (Parse.expression (.nested n)) Level.assignment e.lexemes e' :=
  (h.reads n hn).expression

/-- One level down, the rules read the expression as a part. -/
theorem part (h : e.IsReadAs e') (hn : e.lexemes.length < n) :
    ReadsAt (Rules.nested n).expression Level.assignment e.lexemes e' := by
  obtain ⟨m, rfl⟩ : ∃ m, n = m + 1 := ⟨n - 1, by omega⟩
  exact h.expression (by omega)

theorem inPlace (h : e.IsReadAs e') {least : Nat} (hleast : least ≤ Level.primary)
    (hn : (e.lexemesInPlace least e.lexemes).length ≤ n) :
    ReadsAs (.nested n) least (e.lexemesInPlace least e.lexemes) e' := by
  rw [length_lexemesInPlace] at hn
  refine ReadsAs.inPlace (h.reads n (by omega)) (fun hl => h.part ?_) (Balanced.tree.expr e) hleast
  rw [if_pos hl] at hn
  omega

theorem parensIf (h : e.IsReadAs e') {least : Nat} (needed : Bool) (hleast : least ≤ Level.primary)
    (hn : (lexemesParenthesisedIf needed (e.lexemesInPlace least e.lexemes)).length ≤ n) :
    ReadsAs (.nested n) least
      (lexemesParenthesisedIf needed (e.lexemesInPlace least e.lexemes)) e' := by
  rw [length_lexemesParenthesisedIf] at hn
  refine ReadsAs.parensIf (h.inPlace hleast (by omega)) hleast (fun hneeded => ?_)
    ((Balanced.tree.expr e).inPlace _)
  rw [if_pos hneeded] at hn
  obtain ⟨m, rfl⟩ : ∃ m, n = m + 1 := ⟨n - 1, by omega⟩
  exact (h.inPlace hleast (by omega)).expression

theorem guard (h : e.IsReadAs e') (hn : (guardLexemes e.lexemes).length ≤ n) :
    ReadsAt (Parse.expression (.nested n)) Level.assignment (guardLexemes e.lexemes) e' := by
  rw [guardLexemes, length_lexemesParenthesisedIf] at hn
  refine ReadsAs.guard (h.reads n (by omega)) (fun hneeded => h.part ?_) (Balanced.tree.expr e)
  rw [if_pos hneeded] at hn
  omega

/-- A callee of `new` is in parentheses or a plain chain. -/
theorem callee (h : e.IsReadAs e') {needed : Bool}
    (hplain : needed = false → e.isPlainChain = true)
    (hn : (lexemesParenthesisedIf needed (e.lexemesInPlace Level.call e.lexemes)).length ≤ n) :
    ReadsCallee (.nested n)
      (lexemesParenthesisedIf needed (e.lexemesInPlace Level.call e.lexemes)) e' := by
  have hb := Balanced.tree.expr e
  rw [length_lexemesParenthesisedIf, length_lexemesInPlace] at hn
  cases needed with
  | true =>
    obtain ⟨m, rfl⟩ : ∃ m, n = m + 1 := ⟨n - 1, by simp at hn; omega⟩
    have hinner : ReadsAs (.nested m) Level.call _ e' := h.inPlace (by decide)
      (by rw [length_lexemesInPlace]; simp at hn; omega)
    exact .of_primary ((ReadsAs.parens hinner.expression (hb.inPlace _)).primary (by decide))
  | false =>
    unfold Expr.lexemesInPlace
    by_cases hl : e.level < Level.call
    · simp only [hl, decide_true]
      refine .of_primary ((ReadsAs.parens (h.part ?_) hb).primary (by decide))
      rw [if_pos hl] at hn
      omega
    · simp only [hl, decide_false]
      exact h.readsCallee (Nat.not_lt.mp hl) (hplain rfl) n (by omega)

theorem of_primary (hwf : e.WellFormed) (hlevel : e.level = Level.primary)
    (hplain : e'.isPlainChain = e.isPlainChain)
    (h : ∀ n, e.lexemes.length ≤ n → ReadsAt (primary (.nested n)) Level.primary e.lexemes e') :
    e.IsReadAs e' := by
  have hstart := e.startsAt hwf
  have harrow : e.isArrow = false := by cases e <;> first | rfl | cases hlevel
  have hchain : e.isPlainChain = true := by cases e <;> first | rfl | cases hlevel
  refine ⟨hplain, fun n hn => ?_, fun _ _ n hn => .of_primary (h n hn), fun hc => ?_⟩
  · rw [hlevel] at hstart ⊢
    exact .of_primary (h n hn) (e.noArrow hwf harrow) hstart
  · rw [hchain] at hc
    cases hc

theorem of_chain (hwf : e.WellFormed) (hlevel : e.level = Level.call)
    (hplain : e'.isPlainChain = e.isPlainChain)
    (h : ∀ n, e.lexemes.length ≤ n → ReadsChain (.nested n) e.lexemes e')
    (hcallee : e.isPlainChain = true →
      ∀ n, e.lexemes.length ≤ n → ReadsCallee (.nested n) e.lexemes e')
    (hapart : e.isPlainChain = false → e.startsWithNew = false → ∀ n, e.lexemes.length ≤ n →
      ReadsChain (.nested n) (.keyword .new_ :: e.lexemes) e'.underNew) : e.IsReadAs e' := by
  have hstart := e.startsAt hwf
  have harrow : e.isArrow = false := by cases e <;> first | rfl | cases hlevel
  refine ⟨hplain, fun n hn => ?_, fun _ => hcallee, hapart⟩
  rw [hlevel] at hstart ⊢
  exact .of_chain (h n hn) (e.noArrow hwf harrow) hstart

/-- Looser expressions than chains are no callees without parentheses. -/
theorem of_reads (hlevel : e.level < Level.call) (hplain : e'.isPlainChain = e.isPlainChain)
    (h : ∀ n, e.lexemes.length ≤ n → ReadsAs (.nested n) e.level e.lexemes e') :
    e.IsReadAs e' := by
  have hchain : e.isPlainChain = true := by
    cases e <;> first | rfl | exact absurd hlevel (Nat.lt_irrefl _)
  refine ⟨hplain, h, fun hl => absurd hl (by omega), fun hc => ?_⟩
  rw [hchain] at hc
  cases hc

theorem of_operand (hwf : e.WellFormed) (hlow : Level.unary ≤ e.level)
    (hhigh : e.level < Level.call) (hplain : e'.isPlainChain = e.isPlainChain)
    (h : ∀ n, e.lexemes.length ≤ n →
      ReadsAt (Parse.operand (.nested n)) Level.unary e.lexemes e') :
    e.IsReadAs e' := by
  have harrow : e.isArrow = false := by
    cases e <;> first | rfl | exact absurd hlow (by simp [Expr.level, Level.unary, Level.assignment])
  exact of_reads hhigh hplain fun n hn => .of_operand (h n hn) (e.noArrow hwf harrow) hlow hhigh

theorem of_expression (hlevel : e.level ≤ Level.conditional)
    (hplain : e'.isPlainChain = e.isPlainChain)
    (h : ∀ n, e.lexemes.length ≤ n →
      ReadsAt (Parse.expression (.nested n)) Level.assignment e.lexemes e') : e.IsReadAs e' :=
  of_reads (Nat.lt_of_le_of_lt hlevel (by decide)) hplain
    fun n hn => .of_expression (h n hn) hlevel

end Expr.IsReadAs

namespace Stmt.IsReadAs

variable {s s' : Stmt} {n : Nat}

/-- One level down, the rules read the statement as a part. -/
theorem part (h : s.IsReadAs s') (hn : s.lexemes.length < n) :
    ReadsStmt (Rules.nested n).statement s.lexemes s s' := by
  obtain ⟨m, rfl⟩ : ∃ m, n = m + 1 := ⟨n - 1, by omega⟩
  exact h m (by omega)

end Stmt.IsReadAs

/-! ### Expressions -/

namespace Expr.IsReadAs

theorem atom {l : Lexeme} {e : Expr} (hwf : e.WellFormed) (hlevel : e.level = Level.primary)
    (hl : e.lexemes = [l])
    (h : ∀ t : Token, t.kind = l.kind →
      ∃ e', atom? t = some e' ∧ e'.withoutSpans = e.withoutSpans) : e.IsReadAs e :=
  .of_primary hwf hlevel rfl fun _ _ => hl ▸ ReadsAt.atom h

theorem binary {left left' right right' : Expr} {op : BinaryOp} {span : Span}
    (hwf : (Expr.binary left op right span).WellFormed) (hleft : left.IsReadAs left')
    (hright : right.IsReadAs right') :
    (Expr.binary left op right span).IsReadAs (.binary left' op right' span) := by
  have hp := op.precedence_bounds
  have hlow : Level.conditional < Level.binary op := by
    simp only [Level.conditional, Level.binary]
    omega
  have hhigh := Level.binary_lt_unary op
  have hprimary : Level.binary op + 1 ≤ Level.primary := Nat.le_trans hhigh (by decide)
  refine of_reads (Nat.lt_trans hhigh (by decide)) rfl fun n hn => ?_
  simp only [Expr.lexemes, List.length_append, List.length_cons] at hn
  have hl := (hleft.parensIf (n := n) (op == .nullish && left.isLogical)
    (Nat.le_of_succ_le hprimary) (by omega)).operands hlow
  have hr := (hright.parensIf (n := n) (op == .nullish && right.isLogical) hprimary
    (by omega)).operands (Nat.lt_succ_of_lt hlow)
  have h : ReadsOperands _ _ _ (.binary left' op right' span) :=
    .binary hl hr (Nat.le_refl _) (Nat.le_refl _)
  exact .of_operands h (Expr.noArrow _ hwf rfl) hlow hhigh

theorem unary {operand operand' : Expr} {op : UnaryOp} {span : Span}
    (hwf : (Expr.unary op operand span).WellFormed) (h : operand.IsReadAs operand') :
    (Expr.unary op operand span).IsReadAs (.unary op operand' span) := by
  refine of_operand hwf (Nat.le_refl _) (Nat.le_succ_of_le (Nat.le_refl _)) rfl fun n hn => ?_
  simp only [Expr.lexemes, List.length_cons] at hn
  obtain ⟨m, rfl⟩ : ∃ m, n = m + 1 := ⟨n - 1, by omega⟩
  exact .unary ((h.inPlace (n := m) (by decide) (by omega)).operand (by decide))

theorem update {operand operand' : Expr} {op : UpdateOp} {inFront : Bool} {span : Span}
    (hwf : (Expr.update op inFront operand span).WellFormed) (h : operand.IsReadAs operand')
    (htarget : operand'.isTarget = true) :
    (Expr.update op inFront operand span).IsReadAs (.update op inFront operand' span) := by
  cases inFront with
  | true =>
    refine of_operand hwf (Nat.le_refl _) (Nat.le_succ_of_le (Nat.le_refl _)) rfl fun n hn => ?_
    simp only [Expr.lexemes, if_true, List.length_cons] at hn
    obtain ⟨m, rfl⟩ : ∃ m, n = m + 1 := ⟨n - 1, by omega⟩
    exact .updateInFront ((h.inPlace (n := m) (by decide) (by omega)).operand (by decide)) htarget
  | false =>
    refine of_operand hwf (Nat.le_succ _) (Nat.le_refl _) rfl fun n hn => ?_
    simp only [Expr.lexemes, Bool.false_eq_true, if_false, List.length_append] at hn
    exact .updateBehind ((h.inPlace (by decide) (by omega)).chain (by decide)) htarget
      ((operand.startsAt hwf.2).inPlace (by decide))

/-- In front of a member or a call, a chain is not in parentheses. -/
theorem lexemesInPlace_of_chain {e : Expr} (h : e.isPlainChain = false) :
    e.isNumber = false ∧ e.lexemesInPlace Level.call e.lexemes = e.lexemes := by
  cases e with
  | member | call | new => exact ⟨rfl, rfl⟩
  | _ => cases h

theorem member {base base' property property' : Expr} {computed optional : Bool} {span : Span}
    (hwf : (Expr.member base property computed optional span).WellFormed)
    (hbase : base.IsReadAs base') (hproperty : computed = true → property.IsReadAs property')
    (hname : computed = false → property' = property) :
    (Expr.member base property computed optional span).IsReadAs
      (.member base' property' computed optional span) := by
  have hsame : (Expr.member base' property' computed optional span).isPlainChain =
      (Expr.member base property computed optional span).isPlainChain := by
    simp only [Expr.isPlainChain, hbase.isPlainChain_eq]
  have hunder : (Expr.member base' property' computed optional span).underNew =
      .member (if base.isPlainChain then .new base' [] span else base'.underNew) property' computed
        optional span := by
    simp only [Expr.underNew, hbase.isPlainChain_eq]
    split <;> rfl
  cases computed with
  | true =>
    obtain rfl : optional = false := hwf.2.2
    have hlength : (lexemesParenthesisedIf base.isNumber
        (base.lexemesInPlace Level.call base.lexemes)).length + property.lexemes.length <
          (Expr.member base property true false span).lexemes.length := by
      simp only [Expr.lexemes, memberLexemes, Expr.lexemesInPlace_any, List.length_append,
        List.length_cons]
      omega
    refine of_chain hwf rfl hsame (fun n hn => ?_) (fun hplain => by cases hplain)
      fun _ hstart n hn => ?_
    · simp only [Expr.lexemes, Expr.lexemesInPlace_any]
      exact .computed
        (((hbase.parensIf _ (by decide) (by omega)).chain (by decide)).before _)
        ((hproperty rfl).part (by omega))
    · rw [hunder]
      simp only [Expr.lexemes, Expr.lexemesInPlace_any]
      suffices hnew : ReadsChainBefore (.nested n) .leftBracket (.keyword .new_ ::
          lexemesParenthesisedIf base.isNumber (base.lexemesInPlace Level.call base.lexemes))
          (if base.isPlainChain then .new base' [] span else base'.underNew) from
        .computed hnew ((hproperty rfl).part (by omega))
      cases hb : base.isPlainChain with
      | true => exact (hbase.callee (fun _ => hb) (by omega)).newBefore (by decide) (by decide)
      | false =>
        obtain ⟨hnumber, hplace⟩ := lexemesInPlace_of_chain hb
        rw [hnumber, hplace] at hlength ⊢
        have hn' : base.lexemes.length ≤ n := by
          simp only [lexemesParenthesisedIf, Bool.false_eq_true, if_false] at hlength
          omega
        exact (hbase.readsApart hb hstart n hn').before _
  | false =>
    obtain rfl := hname rfl
    have hword : property'.isWord = true := hwf.2
    have hlength : (lexemesParenthesisedIf base.isNumber
        (base.lexemesInPlace Level.call base.lexemes)).length ≤
          (Expr.member base property' false optional span).lexemes.length := by
      cases optional <;> simp [Expr.lexemes, memberLexemes]
    refine of_chain hwf rfl hsame (fun n hn => ?_) (fun hplain n hn => ?_)
      fun hchain hstart n hn => ?_
    · simp only [Expr.lexemes, Expr.lexemesInPlace_any]
      exact .member (((hbase.parensIf _ (by decide) (by omega)).chain (by decide)).before _) hword
    · simp only [Expr.isPlainChain, Bool.and_eq_true, Bool.not_eq_true'] at hplain
      obtain ⟨⟨-, rfl⟩, hplain⟩ := hplain
      simp only [Expr.lexemes, Expr.lexemesInPlace_any]
      exact .member (hbase.callee (fun _ => hplain) (by omega)) hword
    · rw [hunder]
      have hcons (ls : List Lexeme) : .keyword .new_ :: memberLexemes ls property'.lexemes false
          optional = memberLexemes (.keyword .new_ :: ls) property'.lexemes false optional := by
        cases optional <;> rfl
      simp only [Expr.lexemes, Expr.lexemesInPlace_any, hcons]
      refine .member ?_ hword
      cases hb : base.isPlainChain with
      | true =>
        obtain rfl : optional = true := by simpa [Expr.isPlainChain, hb] using hchain
        exact (hbase.callee (fun _ => hb) (by omega)).newBefore (by decide) (by decide)
      | false =>
        obtain ⟨hnumber, hplace⟩ := lexemesInPlace_of_chain hb
        rw [hnumber, hplace] at hlength ⊢
        exact (hbase.readsApart hb hstart n (Nat.le_trans hlength hn)).before _

theorem call {callee callee' : Expr} {es : List Expr} {f : Expr → Expr} {span : Span}
    (hwf : (Expr.call callee es span).WellFormed) (hcallee : callee.IsReadAs callee')
    (hes : ∀ e ∈ es, e.IsReadAs (f e)) :
    (Expr.call callee es span).IsReadAs (.call callee' (es.map f) span) := by
  have hlexemes : (Expr.call callee es span).lexemes = callee.lexemesInPlace Level.call
      callee.lexemes ++ .mark .leftParen :: (commaLexemes (exprsLexemes es) ++
        [.mark .rightParen]) := by
    simp [Expr.lexemes]
  have hlength := congrArg List.length hlexemes
  simp only [List.length_append, List.length_cons] at hlength
  have harguments (n : Nat) (hn : (Expr.call callee es span).lexemes.length ≤ n) :
      Reads (arguments (.nested n))
        (.mark .leftParen :: (commaLexemes (exprsLexemes es) ++ [.mark .rightParen]))
        (fun _ => True) (List.map Expr.withoutSpans) ((es.map f).map Expr.withoutSpans) := by
    refine .arguments (fun e he => (hes e he).part ?_) (exprsWellFormed_iff.mp hwf.2)
    have := length_le_exprsLexemes he
    omega
  refine of_chain hwf rfl rfl (fun n hn => ?_) (fun hplain => by cases hplain)
    fun _ hstart n hn => ?_
  · rw [hlexemes]
    exact .call ((hcallee.inPlace (by decide) (by omega)).chain (by decide)) (harguments n hn)
  · rw [hlexemes, Expr.underNew, hcallee.isPlainChain_eq]
    cases hc : callee.isPlainChain with
    | true =>
      have hplace : (lexemesParenthesisedIf false
          (callee.lexemesInPlace Level.call callee.lexemes)).length ≤ n := by
        rw [length_lexemesParenthesisedIf, if_neg Bool.false_ne_true]
        omega
      exact .new (hcallee.callee (fun _ => hc) hplace) (harguments n hn)
    | false =>
      obtain ⟨-, hplace⟩ := lexemesInPlace_of_chain hc
      rw [hplace] at hlength ⊢
      have hchain := hcallee.readsApart hc hstart n (by omega)
      exact hchain.call (harguments n hn)

/-- Of a callee that is not taken as a whole, `new` takes the beginning, and its arguments are those
of a call of the rest. -/
theorem new {callee callee' : Expr} {es : List Expr} {f : Expr → Expr} {span : Span}
    (hwf : (Expr.new callee es span).WellFormed)
    (hapart : (Expr.new callee es span).newIsApart = true) (hcallee : callee.IsReadAs callee')
    (hes : ∀ e ∈ es, e.IsReadAs (f e)) :
    (Expr.new callee es span).IsReadAs
      (if callee.isCall || callee.isPlainChain then .new callee' (es.map f) span
        else .call callee'.underNew (es.map f) span) := by
  have hlexemes : (Expr.new callee es span).lexemes = .keyword .new_ ::
      (lexemesParenthesisedIf callee.isCall (callee.lexemesInPlace Level.call callee.lexemes) ++
        .mark .leftParen :: (commaLexemes (exprsLexemes es) ++ [.mark .rightParen])) := by
    simp [Expr.lexemes]
  have hlength := congrArg List.length hlexemes
  simp only [List.length_append, List.length_cons] at hlength
  refine of_chain hwf rfl ?_ (fun n hn => ?_) (fun hplain => by cases hplain)
    (fun _ hstart => by cases hstart)
  · split <;> rfl
  have harguments : Reads (arguments (.nested n))
      (.mark .leftParen :: (commaLexemes (exprsLexemes es) ++ [.mark .rightParen]))
      (fun _ => True) (List.map Expr.withoutSpans) ((es.map f).map Expr.withoutSpans) := by
    refine .arguments (fun e he => (hes e he).part ?_) (exprsWellFormed_iff.mp hwf.2)
    have := length_le_exprsLexemes he
    omega
  rw [hlexemes]
  split
  · next htakes =>
    refine .new (hcallee.callee (fun hcall => ?_) (by omega)) harguments
    simpa [hcall] using htakes
  · next htakes =>
    simp only [Bool.or_eq_true, not_or, Bool.not_eq_true] at htakes
    obtain ⟨hcall, hchain⟩ := htakes
    have hstart : callee.startsWithNew = false := by
      simpa [Expr.newIsApart, hcall] using hapart
    obtain ⟨-, hplace⟩ := lexemesInPlace_of_chain hchain
    rw [hcall, hplace] at hlength ⊢
    simp only [lexemesParenthesisedIf, Bool.false_eq_true, if_false] at hlength
    have hread := hcallee.readsApart hchain hstart n (by omega)
    exact hread.call harguments

theorem conditional {test test' consequent consequent' alternate alternate' : Expr} {span : Span}
    (hwf : (Expr.conditional test consequent alternate span).WellFormed)
    (htest : test.IsReadAs test') (hconsequent : consequent.IsReadAs consequent')
    (halternate : alternate.IsReadAs alternate') :
    (Expr.conditional test consequent alternate span).IsReadAs
      (.conditional test' consequent' alternate' span) := by
  refine of_expression (Nat.le_refl _) rfl fun n hn => ?_
  have hno := Expr.noArrow _ hwf rfl
  simp only [Expr.lexemes, Expr.lexemesInPlace_assignment, List.append_assoc, List.cons_append,
    List.length_append, List.length_cons] at hn hno ⊢
  refine .expression_of_conditional (.conditional (n := Level.conditional + 1) ?_
    (by decide) (hconsequent.part (by omega)) (halternate.part (by omega))) hno
  exact (htest.inPlace (by decide) (by omega)).operands (by decide)

theorem object {ps : List Property} {f : Expr → Expr} {span : Span}
    (hwf : (Expr.object ps span).WellFormed)
    (h : ∀ p ∈ ps, p.shorthand = false → p.value.IsReadAs (f p.value))
    (hshort : ∀ p ∈ ps, p.shorthand = true → f p.value = p.value) :
    (Expr.object ps span).IsReadAs
      (.object (ps.map fun p => { p with value := f p.value }) span) := by
  refine .of_primary hwf rfl rfl fun n hn =>
    .object hwf (fun p hp hlong => (h p hp hlong).part ?_) hshort
  simp only [Expr.lexemes, propertiesLexemes_eq, List.cons_append, List.length_cons,
    List.length_append] at hn
  have hle := length_le_commaLexemes (List.mem_map_of_mem (f := Property.lexemes) hp)
  simp only [Property.lexemes, hlong, Bool.false_eq_true, if_false, List.length_cons] at hle
  omega

theorem array {es : List Expr} {f : Expr → Expr} {span : Span}
    (hwf : (Expr.array es span).WellFormed) (h : ∀ e ∈ es, e.IsReadAs (f e)) :
    (Expr.array es span).IsReadAs (.array (es.map f) span) := by
  refine .of_primary hwf rfl rfl fun n hn =>
    .array (fun e he => (h e he).part ?_) (exprsWellFormed_iff.mp hwf)
  simp only [Expr.lexemes, List.cons_append, List.length_cons, List.length_append] at hn
  have := length_le_exprsLexemes he
  omega

theorem arrowExpression {params : List String} {value value' : Expr} {span : Span}
    (hwf : (Expr.arrow params (.expression value) span).WellFormed) (h : value.IsReadAs value') :
    (Expr.arrow params (.expression value) span).IsReadAs
      (.arrow params (.expression value') span) := by
  refine of_expression (Nat.le_succ _) rfl fun n hn => ?_
  simp only [Expr.lexemes, ArrowBody.lexemes, Expr.lexemesInPlace_assignment, List.length_append,
    List.length_cons] at hn ⊢
  obtain ⟨m, rfl⟩ : ∃ m, n = m + 1 := ⟨n - 1, by omega⟩
  obtain ⟨l, ls, hl, -, hb⟩ := ((value.startsAt hwf.2).mono value.one_le_level).guard
  exact .arrowExpression hwf.1 (h.guard (n := m) (by omega)) ⟨l, ls, hl, hb⟩

theorem assignment {target target' value value' : Expr} {op : AssignOp} {span : Span}
    (hwf : (Expr.assignment target op value span).WellFormed) (htarget : target.IsReadAs target')
    (hvalue : value.IsReadAs value') (htarget' : target'.isTarget = true) :
    (Expr.assignment target op value span).IsReadAs (.assignment target' op value' span) := by
  refine of_expression (Nat.le_succ _) rfl fun n hn => ?_
  simp only [Expr.lexemes, Expr.lexemesInPlace_assignment, List.length_append,
    List.length_cons] at hn ⊢
  exact .assignment ((htarget.inPlace (by decide) (by omega)).operands (by decide)) (by decide)
    (.inPlace (target.noArrow hwf.2.1) (by decide)) htarget' (hvalue.part (by omega))

end Expr.IsReadAs

/-! ### Statements -/

/-- Where an expression starts, other than with a brace, a statement can start. -/
theorem canStart_of_startLevel {k : Kind} (h : 1 ≤ k.startLevel) : Kind.CanStart k := by
  cases k with
  | symbol mark => cases mark <;> first | decide | exact absurd h (by decide)
  | keyword word => cases word <;> first | decide | exact absurd h (by decide)
  | endOfInput => exact absurd h (by decide)
  | _ => exact ⟨nofun, nofun, nofun, .inr (.inl rfl)⟩

/-- A statement starts with a token that can stand there. -/
theorem Stmt.startsLine {s : Stmt} (hwf : s.WellFormed) : StartsLine s := by
  cases s with
  | expression value =>
    obtain ⟨l, ls, hl, hstart, -⟩ := ((value.startsAt hwf).mono value.one_le_level).guard
    refine .of_lexemes (by rw [Stmt.lexemes, Expr.lexemesInPlace_any, hl]; rfl)
      (canStart_of_startLevel hstart) fun hsemi => ?_
    rw [hsemi] at hstart
    exact absurd hstart (by decide)
  | declaration kind ds => cases kind <;> exact .of_lexemes rfl (by decide) (by decide)
  | function name params body decorator =>
    obtain rfl : decorator = none := Option.isNone_iff_eq_none.mp hwf.2.2.2.2
    exact .of_lexemes rfl (by decide) (by decide)
  | return_ value => cases value <;> exact .of_lexemes rfl (by decide) (by decide)
  | import_ defaultName specifiers source =>
    by_cases hbare : (importClauses defaultName specifiers).isEmpty = true
    · exact .of_lexemes (by rw [Stmt.lexemes, importLexemes, if_pos hbare]) (by decide) (by decide)
    · exact .of_lexemes (by rw [Stmt.lexemes, importLexemes, if_neg hbare]; rfl) (by decide)
        (by decide)
  | decorator d =>
    obtain ⟨name, arguments, span⟩ := d
    exact .of_lexemes rfl (by decide) (by decide)
  | empty => exact ⟨_, _, rfl, by decide, fun _ => rfl⟩
  | _ => exact .of_lexemes rfl (by decide) (by decide)

namespace Stmt.IsReadAs

theorem expression {value value' : Expr} (hwf : value.WellFormed) (h : value.IsReadAs value') :
    (Stmt.expression value).IsReadAs (.expression value') := by
  intro n hn
  simp only [Stmt.lexemes, Expr.lexemesInPlace_any, List.length_append] at hn ⊢
  exact .expression (h.guard (by omega))
    ((value.startsAt hwf).mono value.one_le_level).guard

/-- The first values of declared variables are read. -/
theorem declarators {ds : List Declarator} {f : Expr → Expr}
    (h : ∀ d ∈ ds, ∀ e ∈ d.init, e.IsReadAs (f e)) {n : Nat}
    (hn : (commaLexemes (declaratorsLexemes ds)).length ≤ n) :
    ∀ d ∈ ds, ∀ e ∈ d.init,
      ReadsAt (Parse.expression (.nested n)) Level.assignment e.lexemes (f e) := by
  intro d hd e he
  refine (h d hd e he).expression ?_
  rw [declaratorsLexemes_eq] at hn
  have hle := length_le_commaLexemes (List.mem_map_of_mem (f := Declarator.lexemes) hd)
  have hlexemes : d.lexemes = .word d.name :: .mark .assign :: e.lexemes := by
    obtain ⟨name, init⟩ := d
    cases he
    rfl
  simp only [hlexemes, List.length_cons] at hle
  omega

theorem declaration {kind : VariableKind} {ds : List Declarator} {f : Expr → Expr}
    (hwf : (Stmt.declaration kind ds).WellFormed)
    (h : ∀ d ∈ ds, ∀ e ∈ d.init, e.IsReadAs (f e)) :
    (Stmt.declaration kind ds).IsReadAs
      (.declaration kind (ds.map fun d => { d with init := d.init.map f })) := by
  intro n hn
  simp only [Stmt.lexemes, List.cons_append, List.length_cons, List.length_append] at hn
  exact .declaration hwf.1 (fun d hd => (declaratorsWellFormed_iff.mp hwf.2 d hd).1)
    (declarators h (by omega))

/-- The body of a function is read from its lexemes. -/
theorem functionBody {body : List Stmt} {f : Stmt → Stmt} (hwf : ∀ s ∈ body, s.WellFormed)
    (hpaired : Paired body) (hapart : linesApart Stmt.goesOn false body = true)
    (h : ∀ s ∈ body, s.IsReadAs (f s)) {n : Nat} (hn : (blockLexemes body).length ≤ n) :
    Reads (functionBody (.nested n)) (blockLexemes body) (fun _ => True)
      (List.map Stmt.withoutSpans) (((keptLines false body).map f).map Stmt.withoutSpans) := by
  refine .functionBody (fun s hs => (h s hs).part ?_) (fun s hs => startsLine (hwf s hs)) hapart
    hpaired
  have := length_le_stmtsLexemes hs
  simp only [blockLexemes, List.length_cons, List.length_append] at hn
  omega

theorem function {name : String} {params : List String} {body : List Stmt} {f : Stmt → Stmt}
    (hwf : (Stmt.function name params body none).WellFormed)
    (hapart : linesApart Stmt.goesOn false body = true) (h : ∀ s ∈ body, s.IsReadAs (f s)) :
    (Stmt.function name params body none).IsReadAs
      (.function name params ((keptLines false body).map f) none) := by
  intro n hn
  refine .function hwf.1 hwf.2.1
    (functionBody (stmtsWellFormed_iff.mp hwf.2.2.1) hwf.2.2.2.1 hapart h ?_)
  simp only [Stmt.lexemes, List.length_append, List.length_cons] at hn
  simp only [blockLexemes, List.length_cons, List.length_append]
  omega

theorem return_ {value : Option Expr} {f : Expr → Expr} (hwf : ∀ e ∈ value, e.WellFormed)
    (h : ∀ e ∈ value, e.IsReadAs (f e)) :
    (Stmt.return_ value).IsReadAs (.return_ (value.map f)) := by
  intro n hn
  cases value with
  | none => exact .return_none
  | some e =>
    have hlength : (onSameLine e.lexemes).length = e.lexemes.length := by
      cases e.lexemes <;> rfl
    simp only [Stmt.lexemes, Expr.lexemesInPlace_any, List.cons_append, List.length_cons,
      List.length_append, hlength] at hn ⊢
    exact .return_some ((h e rfl).expression (by omega))
      ((e.startsAt (hwf e rfl)).mono e.one_le_level)

theorem if_ {test test' : Expr} {consequent consequent' : Stmt} {alternate : Option Stmt}
    {f : Stmt → Stmt} (htest : test.IsReadAs test') (hconsequent : consequent.IsReadAs consequent')
    (halternate : ∀ s ∈ alternate, s.IsReadAs (f s))
    (hclosed : alternate.isSome = true → consequent.endsOpen = false) :
    (Stmt.if_ test consequent alternate).IsReadAs (.if_ test' consequent' (alternate.map f)) := by
  intro n hn
  cases alternate with
  | none =>
    simp only [Stmt.lexemes, elseLexemes, Expr.lexemesInPlace_any, List.cons_append,
      List.append_nil, List.length_cons, List.length_append] at hn ⊢
    exact .if_none (htest.part (by omega)) (hconsequent.part (by omega))
  | some alternate =>
    simp only [Stmt.lexemes, elseLexemes, Expr.lexemesInPlace_any, List.append_assoc,
      List.cons_append, List.length_cons, List.length_append] at hn ⊢
    exact .if_some (htest.part (by omega)) (hconsequent.part (by omega))
      ((halternate alternate rfl).part (by omega)) (hclosed rfl)

theorem while_ {test test' : Expr} {body body' : Stmt} (htest : test.IsReadAs test')
    (hbody : body.IsReadAs body') : (Stmt.while_ test body).IsReadAs (.while_ test' body') := by
  intro n hn
  simp only [Stmt.lexemes, Expr.lexemesInPlace_any, List.cons_append, List.length_cons,
    List.length_append] at hn ⊢
  exact .while_ (htest.part (by omega)) (hbody.part (by omega))

/-- The second or third part of the head of a loop is read. -/
theorem forPart {e : Option Expr} {f : Expr → Expr} (hwf : ∀ x ∈ e, x.WellFormed)
    (h : ∀ x ∈ e, x.IsReadAs (f x)) {n : Nat} (hn : (forPartLexemes e).length ≤ n) :
    ∀ x ∈ e, ReadsAt (Parse.expression (.nested n)) Level.assignment x.lexemes (f x) ∧
      StartsAt 1 x.lexemes := by
  intro x hx
  obtain rfl : e = some x := hx
  simp only [forPartLexemes, Expr.lexemesInPlace_any] at hn
  exact ⟨(h x rfl).expression hn, (x.startsAt (hwf x rfl)).mono x.one_le_level⟩

/-- The first part of the head of a loop is read. -/
theorem forInit {init : Option Stmt} (hwf : ∀ s ∈ init, s.isForInit = true ∧ s.WellFormed)
    (he : ∀ value, init = some (.expression value) → value.IsReadAs value.reread)
    (hd : ∀ kind ds, init = some (.declaration kind ds) →
      ∀ d ∈ ds, ∀ e ∈ d.init, e.IsReadAs e.reread) {n : Nat}
    (hn : (forInitLexemes init).length ≤ n) :
    Reads (forInit (.nested n)) (forInitLexemes init) (· = .symbol .semicolon)
      stmtWithoutSpans? (stmtWithoutSpans? (stmtReread? init)) := by
  cases init with
  | none => exact .forInit_none
  | some s =>
    obtain ⟨hinit, hwf⟩ := hwf s rfl
    cases s with
    | expression value =>
      simp only [forInitLexemes, Expr.lexemesInPlace_any] at hn
      exact .forInit_expression ((he value rfl).expression hn)
        ((value.startsAt hwf).mono value.one_le_level)
    | declaration kind ds =>
      simp only [forInitLexemes, List.length_cons] at hn
      rw [stmtReread?, Stmt.reread, declaratorsReread_eq]
      exact .forInit_declaration hwf.1
        (fun d hd => (declaratorsWellFormed_iff.mp hwf.2 d hd).1)
        (declarators (hd kind ds rfl) (by omega))
    | _ => cases hinit

theorem block {body : List Stmt} {f : Stmt → Stmt} (hwf : ∀ s ∈ body, s.WellFormed)
    (hapart : linesApart Stmt.goesOn false body = true) (h : ∀ s ∈ body, s.IsReadAs (f s)) :
    (Stmt.block body).IsReadAs (.block ((keptLines false body).map f)) := by
  intro n hn
  refine .block (fun s hs => (h s hs).part ?_) (fun s hs => startsLine (hwf s hs)) hapart
  have := length_le_stmtsLexemes hs
  simp only [Stmt.lexemes, List.cons_append, List.length_cons, List.length_append] at hn
  omega

theorem export_ {declared declared' : Stmt} (hwf : (Stmt.export_ declared).WellFormed)
    (h : declared.IsReadAs declared') : (Stmt.export_ declared).IsReadAs (.export_ declared') := by
  intro n hn
  simp only [Stmt.lexemes, List.length_cons] at hn
  refine .export_ (h n (by omega)) ?_
  cases declared with
  | declaration kind ds => exact .inl ⟨kind, ds, rfl⟩
  | function name params body decorator =>
    obtain rfl : decorator = none := Option.isNone_iff_eq_none.mp hwf.2.2.2.2.2
    exact .inr ⟨name, params, body, rfl⟩
  | _ => cases hwf.1

/-- The values of attributes are read. -/
theorem attributes {as : List Attribute} {f : Expr → Expr}
    (h : ∀ x e, .braced x e ∈ as → e.IsReadAs (f e)) {n : Nat}
    (hn : (attributesLexemes as).length ≤ n) :
    ∀ x e, .braced x e ∈ as →
      ReadsAt (Rules.nested n).expression Level.assignment e.lexemes (f e) := by
  intro x e hx
  refine (h x e hx).part ?_
  rw [attributesLexemes_eq] at hn
  have hle := length_le_flatten (List.mem_map_of_mem (f := Attribute.lexemes) hx)
  simp only [Attribute.lexemes, List.cons_append, List.length_cons, List.length_append] at hle
  omega

/-- A decorator is read as the call that it is printed as. -/
theorem decorator {d : Decorator} {f : Expr → Expr} (hwf : (Stmt.decorator d).WellFormed)
    (h : ∀ e ∈ d.arguments, e.IsReadAs (f e)) :
    (Stmt.decorator d).IsReadAs (.decorator { d with arguments := d.arguments.map f }) := by
  obtain ⟨name, es, span⟩ := d
  intro n hn
  have hcallwf : (Expr.call (.identifier name span) es span).WellFormed := hwf
  have hcall : (Expr.call (.identifier name span) es span).IsReadAs
      (.call (.identifier name span) (es.map f) span) := by
    refine .call hcallwf (.atom hcallwf.1 rfl rfl fun t ht => ?_) h
    exact ⟨.identifier name t.span, by simp [atom?, ht.trans hcallwf.1.2], rfl⟩
  have hlexemes : (Stmt.decorator ⟨name, es, span⟩).lexemes =
      .mark .decorator :: (Expr.call (.identifier name span) es span).lexemes := rfl
  rw [hlexemes, List.length_cons] at hn
  obtain ⟨m, rfl⟩ : ∃ m, n = m + 1 := ⟨n - 1, by omega⟩
  rw [hlexemes]
  exact .decorator (.of_chain ((hcall.reads m (by omega)).chain (Nat.le_refl _))
    (Expr.noArrow _ hcallwf rfl) (Expr.startsAt _ hcallwf))

end Stmt.IsReadAs

/-! ### Trees -/

theorem isReadAs_tree {g : Stmt → Bool} :
    TreeInduction
      (fun e => e.IsSound Expr.readsBack g →
        e.IsSound (Expr.bodyApart Stmt.goesOn) (Stmt.bodyApart Stmt.goesOn) → e.IsReadAs e.reread)
      (fun s => s.IsSound Expr.readsBack g →
        s.IsSound (Expr.bodyApart Stmt.goesOn) (Stmt.bodyApart Stmt.goesOn) →
        s.IsReadAs s.reread) where
  number value _ h _ := by
    have hfinite : value.isFinite = true := h.passes
    refine .atom h.1 rfl (l := { kind := .number value }) ?_ fun t ht =>
      ⟨.number _ t.span, by simp [atom?, ht], rfl⟩
    rw [Expr.lexemes, numberLexeme, if_pos hfinite]
  string _ _ h _ := .atom h.1 rfl rfl fun t ht =>
    ⟨.string _ t.span, by simp [atom?, ht, Lexeme.string], rfl⟩
  boolean _ _ h _ := .atom h.1 rfl rfl fun t ht => ⟨.boolean _ t.span, by simp [atom?, ht], rfl⟩
  null _ h _ := .atom h.1 rfl rfl fun t ht => ⟨.null t.span, by simp [atom?, ht], rfl⟩
  this_ _ h _ := .atom h.1 rfl rfl fun t ht =>
    ⟨.this_ t.span, by simp [atom?, ht, Lexeme.keyword], rfl⟩
  identifier name _ h _ := .atom h.1 rfl rfl fun t ht => by
    have ht : t.kind = .identifier name := ht.trans h.1.2
    exact ⟨.identifier name t.span, by simp [atom?, ht], rfl⟩
  binary _ _ _ _ hl hr h h' :=
    .binary h.1 (hl h.binary.1 h'.binary.1) (hr h.binary.2 h'.binary.2)
  unary _ _ _ ho h h' := .unary h.1 (ho h.unary h'.unary)
  update _ _ _ _ ho h h' := .update h.1 (ho h.update h'.update) (Expr.isTarget_reread h.1.1)
  member _ _ _ _ _ hb hp h h' :=
    .member h.1 (hb h.member.1 h'.member.1) (fun hc => hp (h.member.2 hc) (h'.member.2 hc))
      fun hc => Expr.reread_of_isWord (by rw [hc] at h; exact h.1.2)
  call _ _ _ hc ha h h' := by
    rw [Expr.reread, exprsReread_eq]
    exact .call h.1 (hc h.call.1 h'.call.1) fun e he => ha e he (h.call.2 e he) (h'.call.2 e he)
  new callee _ _ hc ha h h' := by
    have htakes : (callee.isCall || callee.isPlainChain) = true := h.passes
    have hnew := Expr.IsReadAs.new h.1 (Expr.newIsApart_of_takesCallee htakes)
      (hc h.new.1 h'.new.1) fun e he => ha e he (h.new.2 e he) (h'.new.2 e he)
    rwa [if_pos htakes, ← exprsReread_eq] at hnew
  conditional _ _ _ _ ht hc ha h h' :=
    .conditional h.1 (ht h.conditional.1 h'.conditional.1)
      (hc h.conditional.2.1 h'.conditional.2.1) (ha h.conditional.2.2 h'.conditional.2.2)
  object _ _ hp h h' := by
    rw [Expr.reread, propertiesReread_eq]
    exact .object h.1 (fun p hm hlong => hp p hm (h.object p hm hlong) (h'.object p hm hlong))
      fun p hm => Property.reread_of_shorthand (propertiesWellFormed_iff.mp h.1 p hm)
  array _ _ hi h h' := by
    rw [Expr.reread, exprsReread_eq]
    exact .array h.1 fun e he => hi e he (h.array e he) (h'.array e he)
  arrowExpression _ _ _ hv h h' :=
    .arrowExpression h.1 (hv h.arrowExpression h'.arrowExpression)
  arrowBlock params body s hb h h' := by
    rw [Expr.reread, ArrowBody.reread, stmtsReread_eq]
    refine .of_expression (Nat.le_succ _) rfl fun n hn => .arrowBlock h.1.1
      (Stmt.IsReadAs.functionBody (stmtsWellFormed_iff.mp h.1.2.1) h.1.2.2 h'.passes
        (fun t ht => hb t ht (h.arrowBlock t ht) (h'.arrowBlock t ht)) ?_)
    simp only [Expr.lexemes, ArrowBody.lexemes, List.length_append, List.length_cons] at hn
    simp only [blockLexemes, List.length_cons, List.length_append]
    omega
  assignment _ _ _ _ ht hv h h' :=
    .assignment h.1 (ht h.assignment.1 h'.assignment.1) (hv h.assignment.2 h'.assignment.2)
      (Expr.isTarget_reread h.1.1)
  expression _ hv h h' := .expression h.1 (hv h.expression h'.expression)
  declaration _ _ hd h h' := by
    rw [Stmt.reread, declaratorsReread_eq]
    exact .declaration h.1 fun d hm e he =>
      hd d hm e he (h.declaration d hm e he) (h'.declaration d hm e he)
  function name params body decorator hb _ h h' := by
    obtain ⟨rfl, hbody⟩ := h.function
    rw [Stmt.reread, stmtsReread_eq]
    exact .function h.1 h'.passes fun t ht => hb t ht (hbody t ht) (h'.function.2 t ht)
  return_ _ hv h h' := by
    rw [Stmt.reread, exprReread?_eq]
    exact .return_ (exprWellFormed?_iff.mp h.1) fun e he => hv e he (h.return_ e he) (h'.return_ e he)
  if_ _ _ _ ht hc ha h h' := by
    rw [Stmt.reread, stmtReread?_eq]
    exact .if_ (ht h.if_.1 h'.if_.1) (hc h.if_.2.1 h'.if_.2.1)
      (fun s hs => ha s hs (h.if_.2.2 s hs) (h'.if_.2.2 s hs)) h.1.2.2.2
  while_ _ _ ht hb h h' := .while_ (ht h.while_.1 h'.while_.1) (hb h.while_.2 h'.while_.2)
  for_ init test update body _ he hd ht hu hb h h' n hn := by
    obtain ⟨hinit, htest, hupdate, hbody⟩ := h.for_
    obtain ⟨hinit', htest', hupdate', hbody'⟩ := h'.for_
    simp only [Stmt.lexemes, List.cons_append, List.length_cons, List.length_append] at hn
    rw [Stmt.reread, exprReread?_eq, exprReread?_eq]
    refine .for_ (Stmt.IsReadAs.forInit (fun s hs => ⟨h.1.1 s hs, (hinit s hs).1⟩) ?_ ?_ (by omega))
      (Stmt.IsReadAs.forPart (fun e hm => (htest e hm).1)
        (fun e hm => ht e hm (htest e hm) (htest' e hm)) (by omega))
      (Stmt.IsReadAs.forPart (fun e hm => (hupdate e hm).1)
        (fun e hm => hu e hm (hupdate e hm) (hupdate' e hm)) (by omega))
      ((hb hbody hbody').part (by omega))
    · rintro value rfl
      exact he value rfl (hinit _ rfl).expression (hinit' _ rfl).expression
    · rintro kind ds rfl d hm e hme
      exact hd kind ds rfl d hm e hme ((hinit _ rfl).declaration d hm e hme)
        ((hinit' _ rfl).declaration d hm e hme)
  block _ hb h h' := by
    rw [Stmt.reread, stmtsReread_eq]
    exact .block (stmtsWellFormed_iff.mp h.1) h'.passes
      fun t ht => hb t ht (h.block t ht) (h'.block t ht)
  break_ _ _ _ _ := .break_
  continue_ _ _ _ _ := .continue_
  import_ _ _ _ h _ _ _ := .import_ h.1.1 h.1.2
  export_ _ hd h h' := .export_ h.1 (hd h.export_ h'.export_)
  empty _ _ _ _ := .empty
  elementStart name as s ha h h' n hn := by
    simp only [Stmt.lexemes, List.cons_append, List.length_cons, List.length_append] at hn
    rw [Stmt.reread, attributesReread_eq]
    exact .elementStart (Stmt.IsReadAs.attributes
      (fun x e hm => ha x e hm (h.elementStart x e hm) (h'.elementStart x e hm)) (by omega))
  elementEnd _ _ _ _ _ _ := .elementEnd
  element name as s ha h h' n hn := by
    simp only [Stmt.lexemes, List.cons_append, List.length_cons, List.length_append] at hn
    rw [Stmt.reread, attributesReread_eq]
    exact .element (Stmt.IsReadAs.attributes
      (fun x e hm => ha x e hm (h.element x e hm) (h'.element x e hm)) (by omega))
  decorator d ha h h' := by
    obtain ⟨name, arguments, span⟩ := d
    rw [Stmt.reread, Decorator.reread, exprsReread_eq]
    exact .decorator h.1 fun e he => ha e he (h.decorator e he) (h'.decorator e he)

/-! ### Programs -/

/-- A stream has at least as many tokens as the statement has lexemes, so that its rules are deep
enough. -/
theorem Stmt.IsReadAs.anyStatement {s s' : Stmt} (h : s.IsReadAs s') :
    ReadsStmt anyStatement s.lexemes s s' := by
  intro b els ahead rest m hs helse hend hm
  have hlength := shows_length hs
  exact h ahead.length (by omega) b els ahead rest m hs helse hend hm

/-- A program whose lines are apart is read from its lexemes, up to spans, but for empty statements
right behind decorators. -/
theorem Program.reads_reread {p : Program} (hwf : p.WellFormed) {g : Stmt → Bool}
    (hback : p.every Expr.readsBack g = true) (hapart : p.linesApart Stmt.goesOn = true)
    {tokens : List Token} {last : Token} (hs : Shows (stmtsLexemes p.body) tokens [last])
    (hlast : last.kind = .endOfInput) :
    ∃ q s, Parse.program (.ofTokens tokens) = .ok q s ∧
      q.withoutSpans = p.reread.withoutSpans := by
  simp only [Program.linesApart, Bool.and_eq_true] at hapart
  obtain ⟨hlines, hapart⟩ := hapart
  have hsound := Program.isSound hwf hback
  have hsound' := Program.isSound hwf hapart
  obtain ⟨m, hm⟩ := Option.isSome_iff_exists.mp hwf.2
  obtain ⟨body, b', els', hp, hv, -⟩ := run_itemsWhile_loop_stmt (· != .endOfInput)
    p.body (fun s hm => (isReadAs_tree.stmt s (hsound s hm) (hsound' s hm)).anyStatement)
    (fun s hm => Stmt.startsLine (hsound s hm).1) (fun k hk => by simp [hk.2.2.1]) false
    (tokens.length + 1) none [] tokens _ m hs hlines (by simp [hlast]) (.inr hlast) hm (by omega)
  rw [dropSemicolon_false] at hp
  refine ⟨⟨body⟩, ⟨b', [last], els'⟩, ?_,
    by simp [Program.withoutSpans, Program.reread, stmtsWithoutSpans_eq, stmtsReread_eq, hv]⟩
  have hitems : itemsWhile (· != .endOfInput) anyStatement (.ofTokens tokens) =
      .ok body ⟨b', [last], els'⟩ := by
    rw [itemsWhile, run_bind (run_budget _)]
    exact hp
  rw [program, run_bind hitems]
  rfl

/-- A program is read from its lexemes, up to spans. -/
theorem Program.reads {p : Program} (hwf : p.WellFormed) (hback : p.readsBack = true)
    {tokens : List Token} {last : Token} (hs : Shows (stmtsLexemes p.body) tokens [last])
    (hlast : last.kind = .endOfInput) :
    ∃ q s, Parse.program (.ofTokens tokens) = .ok q s ∧ q.withoutSpans = p.withoutSpans := by
  obtain ⟨q, s, hq, hspans⟩ :=
    Program.reads_reread hwf hback (Program.linesApart_of_readsBack _ hback) hs hlast
  exact ⟨q, s, hq, hspans.trans (Program.reread_iff.mpr (Program.linesApart_of_readsBack _ hback))⟩

end MarkupScript
