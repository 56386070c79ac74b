import MarkupScript.Proofs.Token.Lossless

/-!
# Frames and tokens

The open frames of the reader can be told from the tokens it has read: replay the tokens on a stack
that opening marks are put on and closing marks are taken from. A closing mark finds the mark that
opens it on top, and what is on top says which tokens can come.
-/

namespace MarkupScript

/-- The marks that are open behind tokens, innermost first. -/
def openMarks (ts : List Token) : List Symbol := ts.foldl (fun marks t => t.kind.replay marks) []

namespace Scanner

/-! ### Parts of a trace -/

theorem Trace.run_eq {s s' : Scanner} {ts : List Token} (h : Trace s ts s') :
    run ts.length s = .ok s' := by
  induction h with
  | nil => rfl
  | @cons s s₁ s₂ s' k text ts hgap htoken hreads _ ih =>
    have hne : s₁.rest.isEmpty = false := by
      rw [hreads.rest]
      cases text with
      | nil => exact absurd rfl hreads.nonempty
      | cons => rfl
    refine Except.bind_eq_ok.mpr ⟨s₁, hgap, ?_⟩
    rw [hne]
    exact Except.bind_eq_ok.mpr ⟨s₂, htoken, ih⟩

/-- A trace can be cut in two anywhere. -/
theorem Trace.of_append {s s' : Scanner} {ts us : List Token} (h : Trace s (ts ++ us) s') :
    ∃ m, Trace s ts m ∧ Trace m us s' := by
  induction ts generalizing s with
  | nil => exact ⟨s, .nil s, h⟩
  | cons t ts ih =>
    cases h with
    | cons hgap htoken hreads h =>
      obtain ⟨m, hts, hus⟩ := ih h
      exact ⟨m, .cons hgap htoken hreads hts, hus⟩

/-- A trace through several tokens comes by every one of them. -/
theorem Trace.split {s s' : Scanner} {front back : List Token} {t : Token}
    (h : Trace s (front ++ t :: back) s') : ∃ s₁ s₂ s₃ text, Trace s front s₁ ∧
      s₁.gap = .ok s₂ ∧ s₂.Reads t.kind text s₃ ∧ t = s₂.tokenOf t.kind text := by
  obtain ⟨s₁, hfront, hrest⟩ := h.of_append
  cases hrest with
  | cons hgap _ hreads _ => exact ⟨s₁, _, _, _, hfront, hgap, hreads, rfl⟩

/-- The open marks are those of the open frames. -/
theorem Trace.openers {s s' : Scanner} {ts : List Token} (h : Trace s ts s') :
    s'.frames.map Frame.opener =
      ts.foldl (fun marks t => t.kind.replay marks) (s.frames.map Frame.opener) := by
  induction h with
  | nil => rfl
  | cons hgap _ hreads _ ih =>
    obtain ⟨_, -, -, -, -, hframes⟩ := gap_eq_ok hgap
    rw [ih, hreads.frames.replay, hframes]
    rfl

end Scanner

/-! ### What can stand where -/

theorem isTag_current_iff {fs : Frames} :
    fs.current.isTag = true ↔ (fs.map Frame.opener).head? = some .tagStart := by
  cases fs with
  | nil => decide
  | cons f fs => cases f <;> simp [Frames.current, Frame.isTag, Frame.opener]

/-- A decimal starts with a digit or a point. -/
theorem DecimalText.head {text : List Char} {x : Decimal} (h : DecimalText text x) :
    ∃ c, text.head? = some c ∧ (c.isDigit = true ∨ c = '.') := by
  obtain ⟨hwhole, hfraction, -, hne⟩ := h
  rename_i whole _ _ _ _
  cases whole with
  | cons c whole =>
    refine ⟨c, rfl, .inl ?_⟩
    rw [List.all_cons, Bool.and_eq_true] at hwhole
    exact hwhole.1
  | nil =>
    cases hfraction with
    | none => exact absurd rfl hne
    | point => exact ⟨'.', rfl, .inr rfl⟩

/-- A token that is written with `<` in front compares or starts a tag. -/
theorem Spells.eq_of_less {k : Kind} {text : List Char} (h : Spells k text) (hk : k.WellFormed)
    (hless : text.head? = some '<') :
    k = .symbol .tagStart ∨ k = .symbol .less ∨ k = .symbol .lessEqual := by
  cases h with
  | identifier x =>
    obtain ⟨c, cs, hx, hc, -⟩ := exists_cons_of_isIdentifierText hk.1
    rw [hx] at hless
    cases hless
    exact absurd hc (by decide)
  | name x =>
    obtain ⟨c, cs, hx, hc, -⟩ := exists_cons_of_isTagName hk
    rw [hx] at hless
    cases hless
    exact absurd hc (by decide)
  | keyword k => revert hless; cases k <;> decide
  | true | false | null | endOfInput => cases hless
  | symbol m => revert hless; cases m <;> decide
  | number h =>
    obtain ⟨c, hc, hstart⟩ := h.head
    rw [hc] at hless
    cases hless
    exact absurd hstart (by decide)
  | string hquote _ =>
    cases hless
    exact absurd hquote (by decide)

/-- What holds of a token that comes behind others: `marks` are the marks that are open there and
`fs` the frames of the reader. -/
structure Disciplined (source : List Char) (marks : List Symbol) (fs : Frames) (t : Token) :
    Prop where
  /-- The open marks are those of the open frames. -/
  mirrors : fs.map Frame.opener = marks
  /-- A closing mark finds its own opening mark on top. -/
  closes : ∀ m o, t.kind = .symbol m → m.opener? = some o → marks.head? = some o
  /-- A name stands directly in a tag. -/
  name : ∀ x, t.kind = .name x → marks.head? = some .tagStart
  /-- Directly in a tag, some marks do not stand. -/
  inTag : marks.head? = some .tagStart →
    ∀ m ∈ [Symbol.leftParen, .leftBracket, .greater, .greaterEqual, .decorator, .tagStart],
      t.kind ≠ .symbol m
  /-- A tag starts at the top of the source or directly in a brace that surrounds statements. -/
  tagStart : t.kind = .symbol .tagStart →
    marks = [] ∨ marks.head? = some .leftBrace ∧ fs.head? = some .block
  /-- Directly in an expression that is surrounded by marks, `<` compares. -/
  less : fs.head? = some .parens ∨ fs.head? = some .brackets ∨ fs.head? = some .braces →
    source[t.span.start]? = some '<' → t.kind = .symbol .less ∨ t.kind = .symbol .lessEqual

/-- What a token does to the frames and what it is written with say where it can stand. -/
theorem FrameStep.disciplined {source text : List Char} {fs fs' : Frames} {t : Token}
    (h : FrameStep fs t.kind fs') (hspells : Spells t.kind text) (hk : t.kind.WellFormed)
    (htext : text.head? = source[t.span.start]?) :
    Disciplined source (fs.map Frame.opener) fs t where
  mirrors := rfl
  closes := h.closes
  name x hx := isTag_current_iff.mp (h.name x hx)
  inTag htag := h.inTag (isTag_current_iff.mpr htag)
  tagStart htag := by
    have hblock := h.tagStart htag
    cases fs with
    | nil => exact .inl rfl
    | cons f fs =>
      obtain rfl : f = .block := hblock
      exact .inr ⟨rfl, rfl⟩
  less hexpr hless := by
    rcases hspells.eq_of_less hk (htext.trans hless) with htag | hcompare
    · -- between statements only, so not in these frames
      have hblock := h.tagStart htag
      cases fs with
      | nil => simp at hexpr
      | cons f fs =>
        obtain rfl : f = .block := hblock
        simp at hexpr
    · exact hcompare

/-- The token behind others is read behind a gap. The end of the source leaves the frames alone. -/
theorem exists_gap_before {source : String} {tokens front back : List Token} {t : Token}
    (h : tokenize source = .ok tokens) (hsplit : tokens = front ++ t :: back) :
    ∃ s s' text fs', Scanner.Trace (.start source.toList) front s ∧ s.gap = .ok s' ∧
      t = s'.tokenOf t.kind text ∧ FrameStep s.frames t.kind fs' := by
  obtain ⟨ts, s, s', -, htrace, hgap, -, htokens⟩ := exists_trace_of_tokenize h
  rw [hsplit] at htokens
  rcases List.eq_nil_or_concat back with rfl | ⟨back, last, rfl⟩
  · obtain ⟨rfl, hlast⟩ := List.append_inj' htokens rfl
    cases hlast
    exact ⟨s, s', [], s.frames, htrace, hgap, rfl, .plain _ nofun nofun⟩
  · rw [List.concat_eq_append, ← List.cons_append, ← List.append_assoc] at htokens
    obtain ⟨rfl, -⟩ := List.append_inj' htokens rfl
    obtain ⟨s₁, s₂, s₃, text, hfront, hgap, hreads, ht⟩ := htrace.split
    obtain ⟨_, -, -, -, -, hframes⟩ := Scanner.gap_eq_ok hgap
    exact ⟨s₁, s₂, text, s₃.frames, hfront, hgap, ht, hframes ▸ hreads.frames⟩

/-- The token behind others, with what reading it does to the frames. -/
theorem exists_frameStep {source : String} {tokens front back : List Token} {t : Token}
    (h : tokenize source = .ok tokens) (hsplit : tokens = front ++ t :: back) :
    ∃ s fs', Scanner.Trace (.start source.toList) front s ∧ FrameStep s.frames t.kind fs' := by
  obtain ⟨s, _, _, fs', htrace, -, -, hstep⟩ := exists_gap_before h hsplit
  exact ⟨s, fs', htrace, hstep⟩

/-- The first character in the span of a token is the one where the span starts. -/
theorem Lexed.head?_extract {source : List Char} {tokens : List Token} {t : Token}
    (h : Lexed 0 source tokens) (ht : t ∈ tokens) :
    (source.extract t.span.start t.span.stop).head? = source[t.span.start]? := by
  by_cases hend : t.kind = .endOfInput
  · obtain ⟨front, last, rfl, -, hstart, hstop, hfront⟩ := h.ends
    rcases List.mem_append.mp ht with ht | ht
    · exact absurd hend (hfront t ht)
    · obtain rfl := List.mem_singleton.mp ht
      simp [List.extract, hstart, hstop]
  · have hlt := h.nonempty t ht hend
    rw [List.extract_eq_take_drop, List.head?_take, if_neg (by omega), List.head?_drop]

/-- **Frame discipline.** Behind any of its tokens, the reader is in a state whose open frames are
told by the tokens before, and the next token keeps to them. -/
theorem tokenize_disciplined {source : String} {tokens front back : List Token} {t : Token}
    (h : tokenize source = .ok tokens) (hsplit : tokens = front ++ t :: back) :
    ∃ s : Scanner, Scanner.run front.length (.start source.toList) = .ok s ∧
      s.tokens.reverse = front ∧ Disciplined source.toList (openMarks front) s.frames t := by
  obtain ⟨s, fs', htrace, hstep⟩ := exists_frameStep h hsplit
  have hlexed := lexed_of_tokenize h
  have ht : t ∈ tokens := by simp [hsplit]
  refine ⟨s, htrace.run_eq, by simp [htrace.tokens, Scanner.start], ?_⟩
  have hmarks : s.frames.map Frame.opener = openMarks front := htrace.openers
  rw [← hmarks]
  exact hstep.disciplined (hlexed.spelled [] rfl t ht) (tokenize_wellFormed h t ht)
    (hlexed.head?_extract ht)

/-- A tag with an expression in braces, directly in a block, and a comparison in parentheses. -/
def framesText : String := "if (a < b) \x7b <p x=\x7bc<d\x7d>;</p> \x7d"

theorem tokenize_framesText :
    ∃ tokens front t back, tokenize framesText = .ok tokens ∧ tokens = front ++ t :: back ∧
      t.kind = .symbol .tagStart ∧ openMarks front = [.leftBrace] ∧
      ∃ s : Scanner, Scanner.run front.length (.start framesText.toList) = .ok s ∧
        s.tokens.reverse = front ∧ Disciplined framesText.toList (openMarks front) s.frames t := by
  have hcheck : (tokenize framesText).toOption.any (fun tokens => tokens[7]?.any fun t =>
      decide (t.kind = .symbol .tagStart ∧ openMarks (tokens.take 7) = [.leftBrace])) = true := by
    decide +kernel
  cases h : tokenize framesText with
  | error e =>
    rw [h] at hcheck
    cases hcheck
  | ok tokens =>
    rw [h] at hcheck
    obtain ⟨t, ht, hcheck⟩ := (Option.any_eq_true _ tokens[7]?).mp hcheck
    obtain ⟨hkind, hmarks⟩ := of_decide_eq_true hcheck
    obtain ⟨hlt, rfl⟩ := List.getElem?_eq_some_iff.mp ht
    have hsplit : tokens = tokens.take 7 ++ tokens[7] :: tokens.drop 8 := by
      rw [← List.drop_eq_getElem_cons hlt, List.take_append_drop]
    exact ⟨tokens, _, _, _, rfl, hsplit, hkind, hmarks, tokenize_disciplined h hsplit⟩

end MarkupScript
