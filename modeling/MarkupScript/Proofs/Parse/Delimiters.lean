import MarkupScript.Proofs.Parse.Takes

/-!
# Every mark of a program is closed

The reader of tokens lets a source end with frames still open. The grammar does not: whatever a
statement or an expression opens it also closes. So no frame is open at the end of a source that is
a program.
-/

namespace MarkupScript

namespace Parse

/-- Where a row of items ends, the next token is one that does not go on. -/
theorem itemsWhile_stops {α : Type} {goesOn : Kind → Bool} {p : Parse α} {s s' : Stream}
    {xs : List α} (h : itemsWhile goesOn p s = .ok xs s') : goesOn s'.kind = false := by
  rw [itemsWhile, run_bind (run_budget _)] at h
  generalize s.ahead.length + 1 = n at h
  induction n generalizing s xs with
  | zero => exact (fail_ne_ok.mp h).elim
  | succ n ih =>
    rw [itemsWhile.loop, run_bind (run_peekKind _)] at h
    split at h
    · obtain ⟨x, s₁, -, h⟩ := bind_eq_ok.mp h
      obtain ⟨rest, s₂, hrest, h⟩ := bind_eq_ok.mp h
      obtain ⟨-, rfl⟩ := pure_eq_ok.mp h
      exact ih hrest
    · next hstop =>
      obtain ⟨-, rfl⟩ := pure_eq_ok.mp h
      exact Bool.eq_false_iff.mpr hstop

theorem anyStatement_takes {marks : List Symbol} :
    Takes (fun _ => True) marks anyStatement marks :=
  fun s => (Rules.close_nested (s.ahead.length + 1)).statement marks (s := s)

theorem anyExpression_takes {marks : List Symbol} :
    Takes (fun _ => True) marks anyExpression marks :=
  fun s => (Rules.close_nested (s.ahead.length + 1)).expression marks (s := s)

/-- A parser that closes what it opens takes matched tokens. -/
theorem Takes.matched {α : Type} {p : Parse α} (h : Takes (fun _ => True) [] p []) {s s' : Stream}
    {a : α} (hp : p s = .ok a s') : ∃ taken, s.ahead = taken ++ s'.ahead ∧ Matched taken := by
  obtain ⟨taken, htaken, hmarks, -⟩ := h trivial hp
  exact ⟨taken, htaken, matched_iff.mpr hmarks⟩

end Parse

/-- The end of the source is the only token of its kind, so a program takes all tokens before it. -/
theorem taken_of_ends {front taken rest : List Token} {last : Token}
    (h : front ++ [last] = taken ++ rest) (hfront : ∀ t ∈ front, t.kind ≠ .endOfInput)
    (hstop : nextKind rest = .endOfInput) :
    (taken = front ++ [last] ∧ rest = []) ∨ (taken = front ∧ rest = [last]) := by
  cases rest with
  | nil => exact .inl ⟨by rw [h, List.append_nil], rfl⟩
  | cons t rest =>
    rcases List.eq_nil_or_concat rest with rfl | ⟨rest, last', rfl⟩
    · obtain ⟨rfl, hrest⟩ := List.append_inj' h rfl
      exact .inr ⟨rfl, hrest.symm⟩
    · rw [List.concat_eq_append, ← List.cons_append, ← List.append_assoc] at h
      obtain ⟨rfl, -⟩ := List.append_inj' h rfl
      exact absurd hstop (hfront t (by simp))

theorem openMarks_of_ends {front taken rest : List Token} {last : Token}
    (h : front ++ [last] = taken ++ rest) (hfront : ∀ t ∈ front, t.kind ≠ .endOfInput)
    (hlast : last.kind = .endOfInput) (hmarks : closeMarks? [] taken = some [])
    (hstop : nextKind rest = .endOfInput) : openMarks front = [] := by
  have htaken : openMarks taken = [] := foldl_replay_of_closeMarks? hmarks
  rcases taken_of_ends h hfront hstop with ⟨rfl, -⟩ | ⟨rfl, -⟩
  · simpa [openMarks, List.foldl_append, hlast, Kind.replay] using htaken
  · exact htaken

/-- No frame is open at the end of a program. -/
theorem frames_of_parse {source : String} {p : Program} (h : parse source = .ok p) :
    ∃ s : Scanner, Scanner.run (source.toList.length + 1) (.start source.toList) = .ok s ∧
      s.rest = [] ∧ s.frames = [] := by
  unfold parse at h
  split at h
  · cases h
  · next tokens htokens =>
    split at h
    · next p s hprogram =>
      obtain ⟨body, s', hbody, hp⟩ := Parse.bind_eq_ok.mp hprogram
      obtain ⟨-, rfl⟩ := Parse.pure_eq_ok.mp hp
      have htakes : Parse.Takes (fun _ => True) []
          (Parse.itemsWhile (· != .endOfInput) Parse.anyStatement) [] :=
        .itemsWhile Parse.anyStatement_takes
      obtain ⟨taken, htaken, hmarks, -⟩ := htakes trivial hbody
      have hstop : s.kind = .endOfInput := by simpa using Parse.itemsWhile_stops hbody
      obtain ⟨ts, s₁, s₂, hrun, htrace, hgap, hrest, rfl⟩ := exists_trace_of_tokenize htokens
      obtain ⟨_, -, -, -, -, hframes⟩ := Scanner.gap_eq_ok hgap
      obtain ⟨front, last, hends, hlast, -, -, hfront⟩ := (lexed_of_tokenize htokens).ends
      obtain ⟨rfl, hlast'⟩ := List.append_inj' hends rfl
      have hopen : openMarks ts = [] :=
        openMarks_of_ends htaken hfront rfl hmarks hstop
      have hopeners : s₂.frames.map Frame.opener = [] := by
        rw [hframes, htrace.openers]
        exact hopen
      exact ⟨s₂, hrun, hrest, List.map_eq_nil_iff.mp hopeners⟩
    · cases h

/-- **Every mark is closed.** The tokens that a statement or an expression takes are matched, from
any stream and with any elements open, and no frame is open at the end of a program. -/
theorem parse_closes_marks :
    (∀ (s : Stream) (st : Stmt) (s' : Stream), Parse.anyStatement s = .ok st s' →
      ∃ taken, s.ahead = taken ++ s'.ahead ∧ Matched taken) ∧
    (∀ (s : Stream) (e : Expr) (s' : Stream), Parse.anyExpression s = .ok e s' →
      ∃ taken, s.ahead = taken ++ s'.ahead ∧ Matched taken) ∧
    ∀ (source : String) (p : Program), parse source = .ok p →
      ∃ s : Scanner, Scanner.run (source.toList.length + 1) (.start source.toList) = .ok s ∧
        s.rest = [] ∧ s.frames = [] :=
  ⟨fun _ _ _ => Parse.anyStatement_takes.matched, fun _ _ _ => Parse.anyExpression_takes.matched,
    fun _ _ => frames_of_parse⟩

/-- All four pairs of marks, in a call that is a statement and an expression. -/
def marksText : String := "f([1], \x7ba: () => \x7b <p x=\x7bb\x7d/> \x7d\x7d)"

/-- Whether a parser succeeds and leaves nothing but the end of the source. -/
def Parse.takesAll {α : Type} (p : Parse α) (tokens : List Token) : Bool :=
  match p (.ofTokens tokens) with
  | .ok _ s' => s'.ahead.length == 1
  | .error .. => false

theorem Parse.exists_of_takesAll {α : Type} {p : Parse α} {tokens : List Token}
    (h : p.takesAll tokens = true) :
    ∃ a s', p (.ofTokens tokens) = .ok a s' ∧ s'.ahead.length = 1 := by
  unfold takesAll at h
  split at h
  · next a s' hp => exact ⟨a, s', hp, by simpa using h⟩
  · cases h

theorem parse_marksText : ∃ tokens st e s₁ s₂ p,
    tokenize marksText = .ok tokens ∧ tokens.length = 26 ∧
    (Parse.anyStatement (.ofTokens tokens) = .ok st s₁ ∧ s₁.ahead.length = 1 ∧
      ∃ taken, tokens = taken ++ s₁.ahead ∧ Matched taken) ∧
    (Parse.anyExpression (.ofTokens tokens) = .ok e s₂ ∧ s₂.ahead.length = 1 ∧
      ∃ taken, tokens = taken ++ s₂.ahead ∧ Matched taken) ∧
    parse marksText = .ok p ∧
    ∃ s : Scanner, Scanner.run (marksText.toList.length + 1) (.start marksText.toList) = .ok s ∧
      s.rest = [] ∧ s.frames = [] := by
  have htokens : (tokenize marksText).toOption.any (fun tokens => tokens.length == 26 &&
      Parse.anyStatement.takesAll tokens && Parse.anyExpression.takesAll tokens) = true := by
    decide +kernel
  have hparse : (parse marksText).toOption.isSome = true := by decide +kernel
  cases h : tokenize marksText with
  | error e =>
    rw [h] at htokens
    cases htokens
  | ok tokens =>
    cases hp : parse marksText with
    | error e =>
      rw [hp] at hparse
      cases hparse
    | ok p =>
      rw [h] at htokens
      obtain ⟨⟨hlength, hstatement⟩, hexpression⟩ :
          (tokens.length = 26 ∧ _) ∧ _ := by
        simpa [Except.toOption] using htokens
      obtain ⟨st, s₁, hst, hs₁⟩ := Parse.exists_of_takesAll hstatement
      obtain ⟨e, s₂, he, hs₂⟩ := Parse.exists_of_takesAll hexpression
      exact ⟨tokens, st, e, s₁, s₂, p, rfl, hlength,
        ⟨hst, hs₁, parse_closes_marks.1 _ _ _ hst⟩, ⟨he, hs₂, parse_closes_marks.2.1 _ _ _ he⟩,
        rfl, parse_closes_marks.2.2 _ _ hp⟩

end MarkupScript
