import MarkupScript.Proofs.Token.Words

/-!
# What tokens are

A token that was read is one that can be read: an identifier is a word that is no keyword, the name
of a tag has the characters of names, and a number has no sign. Every step of the reader keeps this
of the tokens it has read so far.
-/

namespace MarkupScript

theorem Except.bind_eq_ok {ε α β : Type} {x : Except ε α} {f : α → Except ε β} {b : β} :
    (x >>= f) = .ok b ↔ ∃ a, x = .ok a ∧ f a = .ok b := by
  cases x <;> simp [bind, Except.bind]

theorem Kind.wellFormed_ofWord {x : String} (h : isIdentifierText x = true) :
    (Kind.ofWord x).WellFormed := by
  generalize hk : Kind.ofWord x = k
  have hword := hk
  unfold ofWord at hk
  split at hk
  · subst hk
    trivial
  · split_ifs at hk <;> subst hk
    · trivial
    · trivial
    · trivial
    · exact ⟨h, hword⟩

/-- A decimal is read as a number without a sign. -/
theorem Decimal.isUnsigned_nearest (d : Decimal) : (d.nearest false).isUnsigned = true := by
  have h (a b : Nat) : (Double.ofRatio false a b).isUnsigned = true := by
    unfold Double.ofRatio
    cases Magnitude.ofRatio? a b <;> rfl
  unfold nearest
  dsimp only
  split_ifs
  · rfl
  · rfl
  · exact h _ _
  · exact h _ _

namespace Scanner

/-- All tokens read so far are such that can be read. -/
def Sound (s : Scanner) : Prop := ∀ t ∈ s.tokens, t.kind.WellFormed

namespace Sound

variable {s s' : Scanner}

theorem emit (h : s.Sound) {k : Kind} (hk : k.WellFormed) (stop : Place) (rest : List Char) :
    (s.emit k stop rest).Sound := by
  intro t ht
  rcases List.mem_cons.mp ht with rfl | ht
  · exact hk
  · exact h t ht

theorem take (h : s.Sound) {k : Kind} (hk : k.WellFormed) (n : Nat) : (s.take k n).Sound :=
  h.emit hk _ _

theorem opening (h : s.Sound) (mark : Symbol) (frame : Frame) : (s.opening mark frame).Sound :=
  h.take (k := .symbol mark) trivial 1

theorem closing (h : s.Sound) {mark : Symbol} {c : Char} (hs : s.closing mark c = .ok s') :
    s'.Sound := by
  unfold Scanner.closing at hs
  split at hs
  · cases hs
  · cases hs
    have hmark := h.take (k := .symbol mark) trivial 1
    split <;> exact hmark

theorem operator (h : s.Sound) {c : Char} (hs : s.operator c = .ok s') : s'.Sound := by
  unfold Scanner.operator at hs
  split at hs
  · cases hs
  · next mark _ =>
    cases hs
    have hmark := h.take (k := .symbol mark) trivial mark.spelling.length
    split <;> exact hmark

theorem string (h : s.Sound) {quote : Char} (hs : s.string quote = .ok s') : s'.Sound := by
  obtain ⟨⟨text, stop⟩, -, hs⟩ := Except.bind_eq_ok.mp hs
  simp only at hs
  split at hs
  · split at hs
    · cases hs
      exact h.emit (k := .string _) trivial _ _
    · cases hs
  · cases hs

theorem number (h : s.Sound) (hs : s.number = .ok s') : s'.Sound := by
  unfold Scanner.number at hs
  simp only at hs
  split at hs
  · cases hs
    exact h.take (k := .number _) (Decimal.isUnsigned_nearest _) _
  · cases hs

theorem word (h : s.Sound) {c : Char} {cs : List Char} (hr : s.rest = c :: cs)
    (hc : isIdentifierStart c = true) : s.word.Sound := by
  refine h.take (Kind.wellFormed_ofWord ?_) _
  rw [hr, List.takeWhile_cons, if_pos (isIdentifierPart_of_isIdentifierStart hc)]
  simp [isIdentifierText, hc, List.all_takeWhile]

theorem script (h : s.Sound) {c : Char} {cs : List Char} (hr : s.rest = c :: cs)
    (hs : s.script c = .ok s') : s'.Sound := by
  unfold Scanner.script at hs
  split at hs
  · exact h.string hs
  split at hs
  · exact h.number hs
  split at hs
  · next hc =>
    cases hs
    exact h.word hr hc
  split at hs
  · cases hs
    exact h.opening _ _
  · cases hs
    exact h.opening _ _
  · cases hs
    exact h.opening _ _
  · exact h.closing hs
  · exact h.closing hs
  · exact h.closing hs
  · exact h.operator hs

theorem token (h : s.Sound) (hs : s.token = .ok s') : s'.Sound := by
  unfold Scanner.token at hs
  split at hs
  · cases hs
    exact h
  · next c cs hr =>
    split at hs
    · split at hs
      · next hc =>
        cases hs
        exact h.take (k := .name _)
          (by simp [Kind.WellFormed, isTagName, hc, List.all_takeWhile]) _
      · split at hs
        · cases hs
          exact h.take (k := .symbol .tagEnd) trivial 1
        · exact h.script hr hs
    · split at hs
      · cases hs
        exact h.opening _ _
      · split at hs
        · cases hs
          exact h.take (k := .symbol .decorator) trivial 1
        · exact h.script hr hs

theorem gap (h : s.Sound) (hs : s.gap = .ok s') : s'.Sound := by
  obtain ⟨cursor, -, hs⟩ := Except.bind_eq_ok.mp hs
  cases hs
  exact h

theorem run (h : s.Sound) {n : Nat} (hs : Scanner.run n s = .ok s') : s'.Sound := by
  induction n generalizing s with
  | zero =>
    cases hs
    exact h
  | succ n ih =>
    obtain ⟨s₁, hgap, hs⟩ := Except.bind_eq_ok.mp hs
    split at hs
    · cases hs
      exact h.gap hgap
    · obtain ⟨s₂, htoken, hs⟩ := Except.bind_eq_ok.mp hs
      exact ih ((h.gap hgap).token htoken) hs

end Sound

end Scanner

/-- Tokens of a source can be read. -/
theorem tokenize_wellFormed {source : String} {tokens : List Token}
    (h : tokenize source = .ok tokens) : ∀ t ∈ tokens, t.kind.WellFormed := by
  obtain ⟨s, hrun, h⟩ := Except.bind_eq_ok.mp h
  cases h
  have hsound : s.Sound := Scanner.Sound.run (s := .start source.toList) nofun hrun
  intro t ht
  exact hsound.take (k := .endOfInput) trivial 0 t (List.mem_reverse.mp ht)

end MarkupScript
