import MarkupScript.Proofs.Token.FrameDiscipline

/-!
# Matched marks

Tokens are matched if every opening mark is closed by its own closing mark, and what lies between
the two is matched again. `closeMarks?` decides it with a stack of open marks, and the stack also
tells what becomes of tokens that are not matched by themselves: it ends with other marks than it
started with.
-/

namespace MarkupScript

/-- Whether a token is neither an opening nor a closing mark. -/
def Kind.isPlain : Kind → Bool
  | .symbol m => !m.opens && m.opener?.isNone
  | _ => true

/-- All marks in the tokens come in pairs. -/
inductive Matched : List Token → Prop
  | nil : Matched []
  | plain {t : Token} {ts : List Token} : t.kind.isPlain = true → Matched ts → Matched (t :: ts)
  | pair {t u : Token} {m c : Symbol} {inner ts : List Token} : t.kind = .symbol m →
      u.kind = .symbol c → c.opener? = some m → Matched inner → Matched ts →
      Matched (t :: (inner ++ u :: ts))

/-- The marks that are open behind a token, innermost first, if it does not close what its own
opening mark did not open. -/
def Kind.close? (marks : List Symbol) : Kind → Option (List Symbol)
  | .symbol m =>
    if m.opens then some (m :: marks)
    else
      match m.opener? with
      | none => some marks
      | some o => if marks.head? = some o then some marks.tail else none
  | _ => some marks

/-- The marks that are open behind tokens, if marks were open before them and each closing mark
closes its own opening mark. -/
def closeMarks? (marks : List Symbol) (ts : List Token) : Option (List Symbol) :=
  ts.foldlM (fun marks t => t.kind.close? marks) marks

section

variable {marks marks' : List Symbol} {k : Kind} {t : Token} {ts us : List Token}

theorem Kind.close?_of_isPlain (h : k.isPlain = true) : k.close? marks = some marks := by
  cases k with
  | symbol m =>
    obtain ⟨hopens, hopener⟩ : m.opens = false ∧ m.opener? = none := by
      simpa [isPlain] using h
    simp [close?, hopens, hopener]
  | _ => rfl

/-- Where the closing marks fit, it does not matter that they are compared. -/
theorem Kind.replay_of_close? (h : k.close? marks = some marks') : k.replay marks = marks' := by
  cases k with
  | symbol m =>
    simp only [close?] at h
    simp only [replay]
    split_ifs at h ⊢ with hopens hopener
    · exact Option.some.inj h
    · obtain ⟨o, ho⟩ := Option.isSome_iff_exists.mp hopener
      rw [ho] at h
      dsimp only at h
      split_ifs at h
      exact Option.some.inj h
    · rw [Option.not_isSome_iff_eq_none.mp hopener] at h
      exact Option.some.inj h
  | _ => exact Option.some.inj h

theorem Symbol.opens_of_opener? {c m : Symbol} (h : c.opener? = some m) :
    m.opens = true ∧ c.opens = false := by
  cases c <;> cases h <;> exact ⟨rfl, rfl⟩

theorem closeMarks?_cons : closeMarks? marks (t :: ts) = some marks' ↔
    ∃ middle, t.kind.close? marks = some middle ∧ closeMarks? middle ts = some marks' := by
  rw [closeMarks?, List.foldlM_cons]
  exact Option.bind_eq_some_iff

theorem closeMarks?_append : closeMarks? marks (ts ++ us) = some marks' ↔
    ∃ middle, closeMarks? marks ts = some middle ∧ closeMarks? middle us = some marks' := by
  rw [closeMarks?, List.foldlM_append]
  exact Option.bind_eq_some_iff

theorem foldl_replay_of_closeMarks? (h : closeMarks? marks ts = some marks') :
    ts.foldl (fun marks t => t.kind.replay marks) marks = marks' := by
  induction ts generalizing marks with
  | nil => exact Option.some.inj h
  | cons t ts ih =>
    obtain ⟨middle, ht, h⟩ := closeMarks?_cons.mp h
    rw [List.foldl_cons, Kind.replay_of_close? ht]
    exact ih h

/-! ### Matched tokens leave no mark open -/

theorem Matched.append (h : Matched ts) (hus : Matched us) : Matched (ts ++ us) := by
  induction h with
  | nil => exact hus
  | plain ht _ ih => exact .plain ht ih
  | pair ht hu hc hinner _ _ ih =>
    rw [List.cons_append, List.append_assoc]
    exact .pair ht hu hc hinner ih

/-- Tokens close the given marks one after the other, and are matched in between. -/
def ClosesAll : List Symbol → List Token → Prop
  | [], ts => Matched ts
  | m :: marks, ts => ∃ inner u c rest, ts = inner ++ u :: rest ∧ Matched inner ∧
      u.kind = .symbol c ∧ c.opener? = some m ∧ ClosesAll marks rest

theorem ClosesAll.append (hts : Matched ts) (hus : ClosesAll marks us) :
    ClosesAll marks (ts ++ us) := by
  cases marks with
  | nil => exact hts.append hus
  | cons m marks =>
    obtain ⟨inner, u, c, rest, rfl, hinner, hus⟩ := hus
    exact ⟨ts ++ inner, u, c, rest, by simp, hts.append hinner, hus⟩

theorem closesAll_of_closeMarks? (h : closeMarks? marks ts = some []) : ClosesAll marks ts := by
  induction ts generalizing marks with
  | nil =>
    cases h
    exact .nil
  | cons t ts ih =>
    obtain ⟨middle, ht, h⟩ := closeMarks?_cons.mp h
    have hts := ih h
    by_cases hplain : t.kind.isPlain = true
    · rw [Kind.close?_of_isPlain hplain] at ht
      cases ht
      exact ClosesAll.append (.plain hplain .nil) hts
    · cases hk : t.kind with
      | symbol m =>
        rw [hk] at ht
        simp only [Kind.close?] at ht
        split_ifs at ht with hopens
        · -- the mark that is opened is closed later, and the rest is as before
          cases ht
          obtain ⟨inner, u, c, rest, rfl, hinner, hu, hc, hrest⟩ := hts
          have hpair : Matched (t :: (inner ++ [u])) := .pair hk hu hc hinner .nil
          simpa using ClosesAll.append hpair hrest
        · split at ht
          · next hopener =>
            simp [hk, Kind.isPlain, hopens, hopener] at hplain
          · next o hopener =>
            split_ifs at ht with htop
            cases ht
            obtain ⟨outer, rfl⟩ := List.head?_eq_some_iff.mp htop
            exact ⟨[], t, m, ts, rfl, .nil, hk, hopener, hts⟩
      | _ =>
        rw [hk] at hplain
        exact absurd rfl hplain

theorem Matched.closeMarks? (h : Matched ts) (marks : List Symbol) :
    closeMarks? marks ts = some marks := by
  induction h generalizing marks with
  | nil => rfl
  | plain ht _ ih => exact closeMarks?_cons.mpr ⟨marks, Kind.close?_of_isPlain ht, ih marks⟩
  | @pair t u m c inner ts ht hu hc _ _ ihinner ih =>
    obtain ⟨hopens, hcloses⟩ := Symbol.opens_of_opener? hc
    have hopened : t.kind.close? marks = some (m :: marks) := by simp [ht, Kind.close?, hopens]
    have hclosed : u.kind.close? (m :: marks) = some marks := by
      simp [hu, Kind.close?, hcloses, hc]
    refine closeMarks?_cons.mpr ⟨m :: marks, hopened, closeMarks?_append.mpr ?_⟩
    exact ⟨m :: marks, ihinner _, closeMarks?_cons.mpr ⟨marks, hclosed, ih marks⟩⟩

/-- Tokens are matched if they open nothing that they do not close. -/
theorem matched_iff : Matched ts ↔ closeMarks? [] ts = some [] :=
  ⟨fun h => h.closeMarks? [], closesAll_of_closeMarks?⟩

instance : Decidable (Matched ts) := decidable_of_iff _ matched_iff.symm

end

end MarkupScript
