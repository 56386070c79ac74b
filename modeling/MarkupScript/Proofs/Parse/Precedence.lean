import MarkupScript.Proofs.Parse.Reads

/-!
# Operands joined by operators

A row of operands with binary operators between them has one tree: its root is the operator that
binds most loosely, the last one if there are several, and the rows on its two sides are the
subtrees. `joined` builds this tree from the outside, looking at the whole row.

The parser goes through the row once and decides at each operator, by its precedence, whether it
belongs to the operand before it. `Parse.binary_eq_joined` says that the trees are the same.
-/

namespace MarkupScript

/-! ### The tree of a row -/

/-- An operator and the operand behind it. -/
abbrev Joint := BinaryOp × Expr

/-- How tightly the operator binds. -/
def Joint.precedence (j : Joint) : Nat := j.1.precedence

/-- A row that is split at one of its operators. -/
structure SplitRow where
  before : List Joint
  root : Joint
  after : List Joint

/-- Splits a row at the operator that binds most loosely, the last one if there are several. -/
def splitLoosest (j : Joint) : List Joint → SplitRow
  | [] => ⟨[], j, []⟩
  | k :: rest =>
    let split := splitLoosest k rest
    if split.root.precedence ≤ j.precedence then { split with before := j :: split.before }
    else ⟨[], j, k :: rest⟩

/-- Nothing is lost when a row is split. -/
theorem splitLoosest_append (j : Joint) (rest : List Joint) :
    (splitLoosest j rest).before ++ (splitLoosest j rest).root :: (splitLoosest j rest).after =
      j :: rest := by
  induction rest generalizing j with
  | nil => rfl
  | cons k rest ih =>
    rw [splitLoosest]
    split
    · rw [List.cons_append, ih]
    · rfl

/-- A row is split where no operator before binds more loosely and all behind bind more tightly. -/
theorem splitLoosest_eq {j k : Joint} {rest before after : List Joint}
    (h : before ++ k :: after = j :: rest) (hbefore : ∀ q ∈ before, k.precedence ≤ q.precedence)
    (hafter : ∀ q ∈ after, k.precedence < q.precedence) :
    splitLoosest j rest = ⟨before, k, after⟩ := by
  induction before generalizing j rest with
  | nil =>
    obtain ⟨rfl, rfl⟩ := List.cons.inj h
    cases after with
    | nil => rfl
    | cons q after =>
      -- The loosest of what follows is one of it, so it binds more tightly than `k`.
      have hmem : (splitLoosest q after).root ∈ q :: after := by
        rw [← splitLoosest_append q after]
        exact List.mem_append_right _ List.mem_cons_self
      exact if_neg (Nat.not_le.mpr (hafter _ hmem))
  | cons q before ih =>
    obtain ⟨rfl, rfl⟩ := List.cons.inj (List.cons_append ▸ h)
    rw [List.forall_mem_cons] at hbefore
    cases hrest : before ++ k :: after with
    | nil => simp at hrest
    | cons r rest =>
      rw [splitLoosest, ih hrest hbefore.2]
      exact if_pos hbefore.1

/-- The tree of a row: the operand alone, or a node for the loosest operator, the last one if there
are several, with the trees of the rows on its two sides. -/
def joined (first : Expr) : List Joint → Expr
  | [] => first
  | j :: rest =>
    let split := splitLoosest j rest
    .binary (joined first split.before) split.root.1 (joined split.root.2 split.after) default
termination_by row => row.length
decreasing_by
  all_goals
    have := congrArg List.length (splitLoosest_append j rest)
    simp only [List.length_append, List.length_cons] at this ⊢
    omega

@[simp] theorem joined_nil (first : Expr) : joined first [] = first := by rw [joined]

/-- What the root of a tree is, and where the row is split. -/
theorem joined_append_cons {first operand : Expr} {op : BinaryOp} {before after : List Joint}
    (hbefore : ∀ q ∈ before, op.precedence ≤ q.precedence)
    (hafter : ∀ q ∈ after, op.precedence < q.precedence) :
    joined first (before ++ (op, operand) :: after) =
      .binary (joined first before) op (joined operand after) default := by
  cases hrow : before ++ (op, operand) :: after with
  | nil => simp at hrow
  | cons j rest => rw [joined, splitLoosest_eq hrow hbefore hafter]

namespace Parse

/-! ### Rows in a stream -/

/-- From `s` on come operators, each with a run of tokens behind it that the parser of operands
takes, and `s'` is what is left. -/
inductive OperatorsAhead (rules : Rules) : Stream → List Joint → Stream → Prop
  | nil {s : Stream} : OperatorsAhead rules s [] s
  | cons {b : Option Token} {t : Token} {run ahead : List Token} {els : List String} {op : BinaryOp}
      {operand : Expr} {s s' : Stream} {rest : List Joint} : t.kind = .symbol op.symbol →
      Parse.operand rules ⟨some t, ahead, els⟩ = .ok operand s → ahead = run ++ s.ahead →
      OperatorsAhead rules s rest s' →
      OperatorsAhead rules ⟨b, t :: ahead, els⟩ ((op, operand) :: rest) s'

namespace OperatorsAhead

variable {rules : Rules} {s s' : Stream} {j : Joint} {rest rest' : List Joint}

/-- The next token is the first operator. -/
theorem ofKind?_kind (h : OperatorsAhead rules s (j :: rest) s') :
    BinaryOp.ofKind? s.kind = some j.1 := by
  cases h with
  | @cons _ _ _ _ _ op _ _ _ _ ht =>
    rw [Stream.kind_mk, nextKind_cons, ht, BinaryOp.ofKind?_symbol]

theorem split (h : OperatorsAhead rules s (rest ++ rest') s') :
    ∃ s₁, OperatorsAhead rules s rest s₁ ∧ OperatorsAhead rules s₁ rest' s' := by
  induction rest generalizing s with
  | nil => exact ⟨s, .nil, h⟩
  | cons j rest ih =>
    cases h with
    | cons ht hoperand hrun hrest =>
      obtain ⟨s₁, h₁, h₂⟩ := ih hrest
      exact ⟨s₁, .cons ht hoperand hrun h₁, h₂⟩

/-- Each operator takes a token. -/
theorem length_le (h : OperatorsAhead rules s rest s') :
    rest.length + s'.ahead.length ≤ s.ahead.length := by
  induction h with
  | nil => simp
  | cons _ _ hrun _ ih =>
    subst hrun
    simp only [List.length_cons, List.length_append]
    omega

end OperatorsAhead

/-- The parser has to stop: what comes next is no operator that binds more tightly. -/
def StopsAt (least : Nat) (s : Stream) : Prop :=
  ∀ op, BinaryOp.ofKind? s.kind = some op → op.precedence ≤ least

/-- Where a row is divided before its first operator that does not bind more tightly than `least`,
the parser for what binds more tightly stops. -/
theorem StopsAt.of_dropWhile {rules : Rules} {least outer : Nat} {s s' : Stream} {rest : List Joint}
    (hrest : OperatorsAhead rules s (rest.dropWhile (least < ·.precedence)) s')
    (hstop : StopsAt outer s') (hle : outer ≤ least) : StopsAt least s := by
  intro op hop
  cases hdrop : rest.dropWhile (least < ·.precedence) with
  | nil =>
    rw [hdrop] at hrest
    cases hrest
    exact Nat.le_trans (hstop op hop) hle
  | cons j rest' =>
    rw [hdrop] at hrest
    rw [hrest.ofKind?_kind, Option.some.injEq] at hop
    have hj := List.head?_dropWhile_not (fun q : Joint => decide (least < q.precedence)) rest
    rw [hdrop] at hj
    have hj : j.precedence ≤ least := by simpa using hj
    exact hop ▸ hj

/-- The loop of the parser, from the operand `left` on, which is the tree of the row before it. All
operators of that row bind at least as tightly as the next one, so that this becomes the root. -/
theorem run_operators_joined {rules : Rules} {levels least n : Nat} {start : Span} {s s' : Stream}
    {first left : Expr} {done rest : List Joint}
    (hlevels : BinaryOp.maxPrecedence ≤ levels + least)
    (hleft : left.withoutSpans = (joined first done).withoutSpans)
    (hrest : OperatorsAhead rules s rest s') (htight : ∀ q ∈ rest, least < q.precedence)
    (hnext : ∀ j ∈ rest.head?, ∀ q ∈ done, j.precedence ≤ q.precedence) (hstop : StopsAt least s')
    (hn : rest.length < n) :
    ∃ e, operators (climb rules (levels - 1)) start least n left s = .ok e s' ∧
      e.withoutSpans = (joined first (done ++ rest)).withoutSpans := by
  -- The operands behind an operator are rows too, with fewer operators and with one level less.
  induction hk : rest.length using Nat.strongRecOn generalizing levels least n start s s' first left
    done rest with
  | ind k ih =>
    cases hrest with
    | nil =>
      exact ⟨left, run_operators_end (by omega) hstop, by rw [List.append_nil, hleft]⟩
    | @cons b t run ahead els op operand s₁ _ rest ht hoperand hrun hrest =>
      rw [List.forall_mem_cons] at htight
      have hop : least < op.precedence := htight.1
      -- The part of the row that belongs to the operand, and what is left for the loop.
      obtain ⟨taken, leftover, hrow, htaken, hleftover⟩ : ∃ taken leftover,
          rest = taken ++ leftover ∧ (∀ q ∈ taken, op.precedence < q.precedence) ∧
          leftover = rest.dropWhile (op.precedence < ·.precedence) :=
        ⟨_, _, List.takeWhile_append_dropWhile.symm, fun q hq => by
          simpa using List.all_eq_true.mp List.all_takeWhile q hq, rfl⟩
      have hlength : rest.length = taken.length + leftover.length := by
        rw [hrow, List.length_append]
      obtain ⟨s₂, htakenAhead, hleftoverAhead⟩ := (hrow ▸ hrest : OperatorsAhead ..).split
      have hbetween : StopsAt op.precedence s₂ :=
        .of_dropWhile (hleftover ▸ hleftoverAhead) hstop (Nat.le_of_lt hop)
      have hfits := htakenAhead.length_le
      simp only [BinaryOp.maxPrecedence, List.length_cons] at hlevels hk hn
      have hlevels' : BinaryOp.maxPrecedence ≤ levels - 1 + op.precedence := by
        simp only [BinaryOp.maxPrecedence]
        omega
      obtain ⟨right, hright, hrightTree⟩ :
          ∃ e, climb rules (levels - 1) op.precedence ⟨some t, ahead, els⟩ = .ok e s₂ ∧
            e.withoutSpans = (joined operand ([] ++ taken)).withoutSpans := by
        rw [run_climb hlevels' hoperand]
        exact ih taken.length (by omega) hlevels' (by rw [joined_nil]) htakenAhead htaken
          (by simp) hbetween (by omega) rfl
      have hbefore : ∀ q ∈ done, op.precedence ≤ q.precedence := hnext (op, operand) rfl
      have hroot : joined first (done ++ (op, operand) :: taken) =
          .binary (joined first done) op (joined operand taken) default :=
        joined_append_cons hbefore htaken
      -- The next operator binds no more tightly than `op`, so than none of those before it.
      have hnext' : ∀ j ∈ leftover.head?, ∀ q ∈ done ++ (op, operand) :: taken,
          j.precedence ≤ q.precedence := by
        intro j hj q hq
        obtain ⟨rest', rfl⟩ := List.head?_eq_some_iff.mp hj
        have hjop : j.precedence ≤ op.precedence := hbetween j.1 hleftoverAhead.ofKind?_kind
        rcases List.mem_append.mp hq with hq | hq
        · exact Nat.le_trans hjop (hbefore q hq)
        · rcases List.mem_cons.mp hq with rfl | hq
          · exact hjop
          · exact Nat.le_trans hjop (Nat.le_of_lt (htaken q hq))
      obtain ⟨m, rfl⟩ : ∃ m, n = m + 1 := ⟨n - 1, by omega⟩
      rw [run_operators_step start m left b ht hop hright, hrow, ← List.cons_append,
        ← List.append_assoc]
      exact ih leftover.length (by omega) (by simp only [BinaryOp.maxPrecedence]; omega)
        (by rw [hroot, Expr.withoutSpans, Expr.withoutSpans, hleft, hrightTree, List.nil_append])
        hleftoverAhead (fun q hq => htight.2 q (hrow ▸ List.mem_append_right taken hq)) hnext' hstop
        (by omega) rfl

/-- **Climbing precedences builds the tree of a row.** Let the parser of operands take a run of
tokens from `s`, and then one behind every operator of a row whose operators bind more tightly than
`least`, up to a token that is no such operator. Then the parser for what binds more tightly than
`least` succeeds from `s`, stops at that token, and gives the tree of the row, up to spans. -/
theorem binary_eq_joined {rules : Rules} {least : Nat} {s s₁ s' : Stream} {first : Expr}
    {rest : List Joint} (hfirst : operand rules s = .ok first s₁)
    (hrest : OperatorsAhead rules s₁ rest s') (htight : ∀ q ∈ rest, least < q.precedence)
    (hstop : StopsAt least s') :
    ∃ e, binary rules least s = .ok e s' ∧
      e.withoutSpans = (joined first rest).withoutSpans := by
  have hlevels : BinaryOp.maxPrecedence ≤ BinaryOp.maxPrecedence - least + least := by omega
  have hfits := hrest.length_le
  rw [binary, run_climb hlevels hfirst, ← List.nil_append rest]
  exact run_operators_joined hlevels (by rw [joined_nil]) hrest htight (by simp)
    hstop (by omega)

/-- A token that is a name. -/
def nameToken (x : String) : Token := ⟨.identifier x, default, false⟩

/-- `a || b - c * d - e)`: a row and the token behind it. -/
def rowTokens : List Token :=
  let mark (m : Symbol) : Token := ⟨.symbol m, default, false⟩
  [nameToken "a", mark .or, nameToken "b", mark .minus, nameToken "c", mark .star, nameToken "d",
    mark .minus, nameToken "e", mark .rightParen]

theorem binary_rowTokens :
    let name (x : String) : Expr := .identifier x default
    ∃ e s', binary (.nested 1) 1 (.ofTokens rowTokens) = .ok e s' ∧
      s'.ahead = rowTokens.drop 9 ∧
      e.withoutSpans = .binary (name "a") .or (.binary (.binary (name "b") .sub
        (.binary (name "c") .mul (name "d") default) default) .sub (name "e") default)
        default := by
  intro name
  have hfirst : operand (.nested 1) (.ofTokens rowTokens) =
      .ok (name "a") ⟨some (nameToken "a"), rowTokens.drop 1, []⟩ := rfl
  have hrest : OperatorsAhead (.nested 1) ⟨some (nameToken "a"), rowTokens.drop 1, []⟩
      [(.or, name "b"), (.sub, name "c"), (.mul, name "d"), (.sub, name "e")]
      ⟨some (nameToken "e"), rowTokens.drop 9, []⟩ := by
    refine .cons rfl rfl (rfl : _ = [nameToken "b"] ++ _) ?_
    refine .cons rfl rfl (rfl : _ = [nameToken "c"] ++ _) ?_
    refine .cons rfl rfl (rfl : _ = [nameToken "d"] ++ _) ?_
    exact .cons rfl rfl (rfl : _ = [nameToken "e"] ++ _) .nil
  have hstop : StopsAt 1 ⟨some (nameToken "e"), rowTokens.drop 9, []⟩ := by
    intro op hop
    cases hop
  obtain ⟨e, he, htree⟩ := binary_eq_joined hfirst hrest (by decide) hstop
  refine ⟨e, _, he, rfl, ?_⟩
  rw [htree]
  simp [joined, splitLoosest, Joint.precedence, BinaryOp.precedence, Expr.withoutSpans, name]

end Parse

end MarkupScript
