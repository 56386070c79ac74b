import MarkupScript.Proofs.Parse.Reads

/-!
# Reading lists

Items with commas between them, and items one after the other. If every item is read from its
lexemes, the list is read from the lexemes of all.
-/

namespace MarkupScript

namespace Parse

variable {α β γ : Type}

theorem Reads.of_stop {p : Parse α} {ls : List Lexeme} {stop stop' : Kind → Prop} {view : α → β}
    {value : β} (h : Reads p ls stop view value) (hstop : ∀ k, stop' k → stop k) :
    Reads p ls stop' view value :=
  fun b els ahead rest hs hk => h b els ahead rest hs (hstop _ hk)

section

variable {item : Parse α} {view : α → β} {f : γ → List Lexeme} {v : γ → β}

/-- The items are read up to the closing mark. The induction is on the items; each takes a token, so
that the budget suffices. -/
theorem run_commaList_loop {close : Symbol} (hclose : close ≠ .comma) (xs : List γ)
    (h : ∀ x ∈ xs, Reads item (f x) (fun k => k = .symbol .comma ∨ k = .symbol close) view (v x))
    (hfirst : ∀ x ∈ xs, ∃ l ls, f x = l :: ls ∧ l.kind ≠ .symbol close) :
    ∀ n b els ahead rest, Shows (commaLexemes (xs.map f)) ahead rest →
      nextKind rest = .symbol close → ahead.length < n →
      ∃ as b', commaList.loop close item n ⟨b, ahead, els⟩ = .ok as ⟨b', rest, els⟩ ∧
        as.map view = xs.map v := by
  induction xs with
  | nil =>
    intro n b els ahead rest hs hrest hn
    obtain ⟨n, rfl⟩ : ∃ m, n = m + 1 := ⟨n - 1, by omega⟩
    obtain rfl : ahead = rest := hs
    refine ⟨[], b, ?_, rfl⟩
    rw [commaList.loop, run_bind (run_check _ _)]
    simp [hrest]
  | cons x xs ih =>
    intro n b els ahead rest hs hrest hn
    obtain ⟨n, rfl⟩ : ∃ m, n = m + 1 := ⟨n - 1, by omega⟩
    obtain ⟨l, ls, hl, hlk⟩ := hfirst x (by simp)
    have hsplit : ∃ middle, Shows (f x) ahead middle ∧
        (xs = [] ∧ middle = rest ∨
          ∃ t ahead', middle = t :: ahead' ∧ t.kind = .symbol .comma ∧
            Shows (commaLexemes (xs.map f)) ahead' rest) := by
      cases xs with
      | nil => exact ⟨rest, hs, .inl ⟨rfl, rfl⟩⟩
      | cons y ys =>
        obtain ⟨middle, h₁, t, ahead', rfl, ⟨ht, -⟩, h₂⟩ := shows_append.mp hs
        exact ⟨_, h₁, .inr ⟨t, ahead', rfl, ht, h₂⟩⟩
    obtain ⟨middle, h₁, h₂⟩ := hsplit
    have hk : nextKind ahead = l.kind := by
      rw [hl] at h₁
      exact h₁.nextKind
    have hcheck : ((Stream.mk b ahead els).kind == .symbol close) = false := by
      simp [hk, hlk]
    rw [commaList.loop]
    rcases h₂ with ⟨rfl, rfl⟩ | ⟨t, ahead', rfl, ht, h₂⟩
    · obtain ⟨a, b', ha, hv⟩ := h x (by simp) b els ahead middle h₁ (.inr hrest)
      refine ⟨[a], b', ?_, by simp [hv]⟩
      have hne : (Stream.mk b' middle els).kind ≠ .symbol .comma := by
        simp [hrest, hclose]
      rw [run_bind (run_check _ _), hcheck]
      simp only [Bool.false_eq_true, if_false]
      rw [run_bind ha, run_bind (run_eat_other hne)]
      rfl
    · obtain ⟨a, b', ha, hv⟩ := h x (by simp) b els ahead _ h₁ (.inl ht)
      have hlen := shows_length h₁
      simp only [List.length_cons] at hlen
      obtain ⟨as, b'', has, hvs⟩ := ih (fun y hy => h y (by simp [hy]))
        (fun y hy => hfirst y (by simp [hy])) n (some t) els ahead' rest h₂ hrest (by omega)
      refine ⟨a :: as, b'', ?_, by simp [hv, hvs]⟩
      rw [run_bind (run_check _ _), hcheck]
      simp only [Bool.false_eq_true, if_false]
      rw [run_bind ha, run_bind (run_eat ht)]
      simp only [if_true]
      rw [run_bind has]
      rfl

theorem Reads.commaList {close : Symbol} (hclose : close ≠ .comma) (xs : List γ)
    (h : ∀ x ∈ xs, Reads item (f x) (fun k => k = .symbol .comma ∨ k = .symbol close) view (v x))
    (hfirst : ∀ x ∈ xs, ∃ l ls, f x = l :: ls ∧ l.kind ≠ .symbol close) :
    Reads (commaList close item) (commaLexemes (xs.map f) ++ [.mark close]) (fun _ => True)
      (List.map view) (xs.map v) := by
  intro b els ahead rest hs _
  obtain ⟨middle, h₁, t, rest', rfl, ⟨ht, -⟩, rfl⟩ := shows_append.mp hs
  have ht : t.kind = .symbol close := ht
  obtain ⟨as, b', has, hv⟩ := run_commaList_loop hclose xs h hfirst (ahead.length + 1) b els ahead _
    h₁ ht (by omega)
  refine ⟨as, some t, ?_, hv⟩
  rw [Parse.commaList, run_bind (run_budget _), run_bind has, run_bind (run_expectSymbol ht)]
  rfl

/-- One or more items are read up to a mark that is no comma. -/
theorem run_commaItems_loop {close : Symbol} (hclose : close ≠ .comma) (xs : List γ)
    (h : ∀ x ∈ xs, Reads item (f x) (fun k => k = .symbol .comma ∨ k = .symbol close) view (v x))
    (hxs : xs ≠ []) :
    ∀ n b els ahead rest, Shows (commaLexemes (xs.map f)) ahead rest →
      nextKind rest = .symbol close → ahead.length < n →
      ∃ as b', commaItems.loop item n ⟨b, ahead, els⟩ = .ok as ⟨b', rest, els⟩ ∧
        as.map view = xs.map v := by
  induction xs with
  | nil => exact absurd rfl hxs
  | cons x xs ih =>
    intro n b els ahead rest hs hrest hn
    obtain ⟨n, rfl⟩ : ∃ m, n = m + 1 := ⟨n - 1, by omega⟩
    rw [commaItems.loop]
    cases xs with
    | nil =>
      obtain ⟨a, b', ha, hv⟩ := h x (by simp) b els ahead rest hs (.inr hrest)
      refine ⟨[a], b', ?_, by simp [hv]⟩
      have hne : (Stream.mk b' rest els).kind ≠ .symbol .comma := by
        simp [hrest, hclose]
      rw [run_bind ha, run_bind (run_eat_other hne)]
      rfl
    | cons y ys =>
      obtain ⟨middle, h₁, t, ahead', rfl, ⟨ht, -⟩, h₂⟩ := shows_append.mp hs
      have ht : t.kind = .symbol .comma := ht
      obtain ⟨a, b', ha, hv⟩ := h x (by simp) b els ahead _ h₁ (.inl ht)
      have hlen := shows_length h₁
      simp only [List.length_cons] at hlen
      obtain ⟨as, b'', has, hvs⟩ := ih (fun y hy => h y (by simp [hy])) (by simp) n (some t) els
        ahead' rest h₂ hrest (by omega)
      refine ⟨a :: as, b'', ?_, by simp [hv, hvs]⟩
      rw [run_bind ha, run_bind (run_eat ht)]
      simp only [if_true]
      rw [run_bind has]
      rfl

theorem Reads.commaItems {close : Symbol} (hclose : close ≠ .comma) (xs : List γ)
    (h : ∀ x ∈ xs, Reads item (f x) (fun k => k = .symbol .comma ∨ k = .symbol close) view (v x))
    (hxs : xs ≠ []) :
    Reads (commaItems item) (commaLexemes (xs.map f)) (· = .symbol close) (List.map view)
      (xs.map v) := by
  intro b els ahead rest hs hrest
  obtain ⟨as, b', has, hv⟩ := run_commaItems_loop hclose xs h hxs (ahead.length + 1) b els ahead rest
    hs hrest (by omega)
  refine ⟨as, b', ?_, hv⟩
  rw [Parse.commaItems, run_bind (run_budget _)]
  exact has

/-- Items are read one after the other, up to a token that does not go on. -/
theorem run_itemsWhile_loop {goesOn : Kind → Bool} {stop : Kind → Prop} (xs : List γ)
    (h : ∀ x ∈ xs, Reads item (f x) stop view (v x))
    (hfirst : ∀ x ∈ xs, ∃ l ls, f x = l :: ls ∧ goesOn l.kind = true ∧ stop l.kind) :
    ∀ n b els ahead rest, Shows (xs.map f).flatten ahead rest →
      goesOn (nextKind rest) = false → stop (nextKind rest) → ahead.length < n →
      ∃ as b', itemsWhile.loop goesOn item n ⟨b, ahead, els⟩ = .ok as ⟨b', rest, els⟩ ∧
        as.map view = xs.map v := by
  induction xs with
  | nil =>
    intro n b els ahead rest hs hrest _ hn
    obtain ⟨n, rfl⟩ : ∃ m, n = m + 1 := ⟨n - 1, by omega⟩
    obtain rfl : ahead = rest := hs
    refine ⟨[], b, ?_, rfl⟩
    rw [itemsWhile.loop, run_bind (run_peekKind _)]
    simp [hrest]
  | cons x xs ih =>
    intro n b els ahead rest hs hrest hstop hn
    obtain ⟨n, rfl⟩ : ∃ m, n = m + 1 := ⟨n - 1, by omega⟩
    obtain ⟨middle, h₁, h₂⟩ := shows_append.mp hs
    obtain ⟨l, ls, hl, hlk, -⟩ := hfirst x (by simp)
    have hk : nextKind ahead = l.kind := by
      rw [hl] at h₁
      exact h₁.nextKind
    have hmiddle : stop (nextKind middle) := by
      cases xs with
      | nil =>
        obtain rfl : middle = rest := h₂
        exact hstop
      | cons y ys =>
        obtain ⟨l', ls', hl', -, hstop'⟩ := hfirst y (by simp)
        rw [List.map_cons, List.flatten_cons, hl'] at h₂
        exact h₂.nextKind ▸ hstop'
    obtain ⟨a, b', ha, hv⟩ := h x (by simp) b els ahead middle h₁ hmiddle
    have hlen := shows_length h₁
    simp only [hl, List.length_cons] at hlen
    obtain ⟨as, b'', has, hvs⟩ := ih (fun y hy => h y (by simp [hy]))
      (fun y hy => hfirst y (by simp [hy])) n b' els middle rest h₂ hrest hstop (by omega)
    refine ⟨a :: as, b'', ?_, by simp [hv, hvs]⟩
    rw [itemsWhile.loop, run_bind (run_peekKind _)]
    simp only [Stream.kind_mk, hk, hlk, if_true]
    rw [run_bind ha, run_bind has]
    rfl

theorem Reads.itemsWhile {goesOn : Kind → Bool} (stop : Kind → Prop) (xs : List γ)
    (h : ∀ x ∈ xs, Reads item (f x) stop view (v x))
    (hfirst : ∀ x ∈ xs, ∃ l ls, f x = l :: ls ∧ goesOn l.kind = true ∧ stop l.kind) :
    Reads (itemsWhile goesOn item) (xs.map f).flatten (fun k => goesOn k = false ∧ stop k)
      (List.map view) (xs.map v) := by
  intro b els ahead rest hs hrest
  obtain ⟨as, b', has, hv⟩ := run_itemsWhile_loop xs h hfirst (ahead.length + 1) b els ahead rest hs
    hrest.1 hrest.2 (by omega)
  refine ⟨as, b', ?_, hv⟩
  rw [Parse.itemsWhile, run_bind (run_budget _)]
  exact has

end

end Parse

end MarkupScript
