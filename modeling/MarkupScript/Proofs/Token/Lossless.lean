import MarkupScript.Proofs.Token.Gaps
import MarkupScript.Proofs.Token.OneToken

/-!
# Nothing of a source is lost

The tokens of a source stand in it one behind the other. What lies between them is gaps, and what
lies in the span of a token spells the token. So the source can be told from its tokens, up to the
gaps and the way that numbers and strings are written.
-/

namespace MarkupScript

/-! ### Reading token after token -/

namespace Scanner

/-- Token after token is read, with the gap in front of each. -/
inductive Trace : Scanner → List Token → Scanner → Prop
  | nil (s : Scanner) : Trace s [] s
  | cons {s s₁ s₂ s' : Scanner} {k : Kind} {text : List Char} {ts : List Token} :
      s.gap = .ok s₁ → s₁.token = .ok s₂ → s₁.Reads k text s₂ → Trace s₂ ts s' →
      Trace s (s₁.tokenOf k text :: ts) s'

theorem gap_eq_ok {s s' : Scanner} (h : s.gap = .ok s') :
    ∃ gap, s.rest = gap ++ s'.rest ∧ s'.place.offset = s.place.offset + gap.length ∧
      IsGap s'.rest gap ∧ s'.tokens = s.tokens ∧ s'.frames = s.frames := by
  obtain ⟨cursor, hcursor, h⟩ := Except.bind_eq_ok.mp h
  cases h
  obtain ⟨gap, hrest, hoffset, hgap⟩ := skipGap_leads hcursor
  exact ⟨gap, hrest, hoffset, hgap, rfl, rfl⟩

/-- With one step for each character and one more, a run comes to the end of the source. -/
theorem exists_trace_of_run {n : Nat} {s s' : Scanner} (h : run n s = .ok s')
    (hn : s.rest.length < n) : ∃ ts s₁, Trace s ts s₁ ∧ s₁.gap = .ok s' ∧ s'.rest = [] := by
  induction n generalizing s with
  | zero => omega
  | succ n ih =>
    obtain ⟨s₁, hgap, h⟩ := Except.bind_eq_ok.mp h
    split at h
    · next hempty =>
      cases h
      exact ⟨[], s, .nil s, hgap, by simpa using hempty⟩
    · next hne =>
      obtain ⟨s₂, htoken, h⟩ := Except.bind_eq_ok.mp h
      obtain ⟨k, text, hreads⟩ := token_reads (by simpa using hne) htoken
      obtain ⟨gap, hrest, -⟩ := gap_eq_ok hgap
      have hlen : s₂.rest.length < n := by
        have hpos := List.length_pos_iff.mpr hreads.nonempty
        rw [hrest, hreads.rest] at hn
        simp only [List.length_append] at hn
        omega
      obtain ⟨ts, s₃, htrace, hend⟩ := ih h hlen
      exact ⟨_, s₃, .cons hgap htoken hreads htrace, hend⟩

theorem Trace.tokens {s s' : Scanner} {ts : List Token} (h : Trace s ts s') :
    s'.tokens = ts.reverse ++ s.tokens := by
  induction h with
  | nil => rfl
  | cons hgap _ hreads _ ih =>
    obtain ⟨_, -, -, -, htokens, -⟩ := gap_eq_ok hgap
    rw [ih, hreads.tokens, htokens]
    simp

end Scanner

/-- The tokens of a source are those of a trace through it, and the mark of its end. -/
theorem exists_trace_of_tokenize {source : String} {tokens : List Token}
    (h : tokenize source = .ok tokens) :
    ∃ ts s s', Scanner.run (source.toList.length + 1) (.start source.toList) = .ok s' ∧
      Scanner.Trace (.start source.toList) ts s ∧ s.gap = .ok s' ∧ s'.rest = [] ∧
      tokens = ts ++ [s'.tokenOf .endOfInput []] := by
  obtain ⟨s', hrun, h⟩ := Except.bind_eq_ok.mp h
  obtain ⟨ts, s, htrace, hgap, hrest⟩ := Scanner.exists_trace_of_run hrun (by simp [Scanner.start])
  obtain ⟨_, -, -, -, htokens, -⟩ := Scanner.gap_eq_ok hgap
  cases h
  refine ⟨ts, s, s', hrun, htrace, hgap, hrest, ?_⟩
  simp [Scanner.take, Scanner.emit, htokens, htrace.tokens, Scanner.start, Scanner.tokenOf,
    Place.right]

/-! ### The text of tokens and the gaps between them -/

/-- From an offset on, a source is made of the texts of tokens with gaps between them. The last
token stands for the end of the source. -/
inductive Lexed : Nat → List Char → List Token → Prop
  | last {n : Nat} {gap : List Char} {t : Token} : IsGap [] gap → t.kind = .endOfInput →
      t.span.start = n + gap.length → t.span.stop = t.span.start → Lexed n gap [t]
  | token {n : Nat} {gap text rest : List Char} {t : Token} {ts : List Token} :
      IsGap (text ++ rest) gap → text ≠ [] → Spells t.kind text → t.span.start = n + gap.length →
      t.span.stop = t.span.start + text.length → Lexed t.span.stop rest ts →
      Lexed n (gap ++ (text ++ rest)) (t :: ts)

theorem Scanner.Trace.lexed {s s' : Scanner} {ts us : List Token} (h : Trace s ts s')
    (hlast : Lexed s'.place.offset s'.rest us) : Lexed s.place.offset s.rest (ts ++ us) := by
  induction h with
  | nil => exact hlast
  | @cons s s₁ s₂ s' k text ts hgap _ hreads _ ih =>
    obtain ⟨gap, hrest, hoffset, hgap, -⟩ := gap_eq_ok hgap
    rw [hrest, hreads.rest]
    refine .token (hreads.rest ▸ hgap) hreads.nonempty hreads.spells hoffset rfl ?_
    have hstop : (s₁.tokenOf k text).span.stop = s₂.place.offset := hreads.offset.symm
    rw [hstop]
    exact ih hlast

/-- The tokens of a source with the gaps between them make up the source. -/
theorem lexed_of_tokenize {source : String} {tokens : List Token}
    (h : tokenize source = .ok tokens) : Lexed 0 source.toList tokens := by
  obtain ⟨ts, s, s', -, htrace, hgap, hrest, rfl⟩ := exists_trace_of_tokenize h
  obtain ⟨gap, hs, hoffset, hgap, -⟩ := Scanner.gap_eq_ok hgap
  refine htrace.lexed ?_
  rw [hrest] at hs hgap
  rw [hs, List.append_nil]
  exact .last hgap rfl hoffset rfl

/-! ### Spans -/

/-- What the spans of tokens say about a source. -/
structure Lossless (source : List Char) (tokens : List Token) : Prop where
  /-- The spans follow one another and do not overlap. -/
  ordered : tokens.Pairwise fun t u => t.span.stop ≤ u.span.start
  /-- Every token has at least one character, but for the end of the source. -/
  nonempty : ∀ t ∈ tokens, t.kind ≠ .endOfInput → t.span.start < t.span.stop
  /-- The end of the source is the last token and no other one. -/
  ends : ∃ front last, tokens = front ++ [last] ∧ last.kind = .endOfInput ∧
    last.span.start = source.length ∧ last.span.stop = source.length ∧
    ∀ t ∈ front, t.kind ≠ .endOfInput
  /-- The characters in a span spell the token. -/
  spelled : ∀ t ∈ tokens, Spells t.kind (source.extract t.span.start t.span.stop)
  /-- The characters between two tokens, and before the first one, are a gap. The end of the source
  is a token as well. -/
  gaps : ∀ p ∈ (0 :: tokens.map (·.span.stop)).zip tokens,
    IsGap (source.drop p.2.span.start) (source.extract p.1 p.2.span.start)

theorem extract_middle {α : Type} (front middle rest : List α) {i j : Nat} (hi : i = front.length)
    (hj : j = i + middle.length) : (front ++ (middle ++ rest)).extract i j = middle := by
  subst hi hj
  simp [List.extract]

namespace Lexed

variable {n : Nat} {cs : List Char} {ts : List Token}

theorem le_start (h : Lexed n cs ts) : ∀ t ∈ ts, n ≤ t.span.start := by
  induction h with
  | last _ _ hstart _ =>
    intro t ht
    obtain rfl := List.mem_singleton.mp ht
    omega
  | token _ _ _ hstart hstop _ ih =>
    intro t ht
    rcases List.mem_cons.mp ht with rfl | ht
    · omega
    · have := ih t ht
      omega

theorem ordered (h : Lexed n cs ts) : ts.Pairwise fun t u => t.span.stop ≤ u.span.start := by
  induction h with
  | last => exact List.pairwise_singleton _ _
  | token _ _ _ _ _ hrest ih => exact List.pairwise_cons.mpr ⟨hrest.le_start, ih⟩

theorem nonempty (h : Lexed n cs ts) :
    ∀ t ∈ ts, t.kind ≠ .endOfInput → t.span.start < t.span.stop := by
  induction h with
  | last _ hkind _ _ =>
    intro t ht hne
    obtain rfl := List.mem_singleton.mp ht
    exact absurd hkind hne
  | token _ htext _ _ hstop _ ih =>
    intro t ht hne
    rcases List.mem_cons.mp ht with rfl | ht
    · have := List.length_pos_iff.mpr htext
      omega
    · exact ih t ht hne

theorem ends (h : Lexed n cs ts) : ∃ front last, ts = front ++ [last] ∧ last.kind = .endOfInput ∧
    last.span.start = n + cs.length ∧ last.span.stop = n + cs.length ∧
    ∀ t ∈ front, t.kind ≠ .endOfInput := by
  induction h with
  | last _ hkind hstart hstop => exact ⟨[], _, rfl, hkind, hstart, by omega, nofun⟩
  | @token n gap text rest t ts _ htext hspells hstart hstop _ ih =>
    obtain ⟨front, last, rfl, hkind, hlast, hlast', hfront⟩ := ih
    refine ⟨t :: front, last, rfl, hkind, ?_, ?_, ?_⟩
    · simp only [List.length_append]
      omega
    · simp only [List.length_append]
      omega
    · intro u hu
      rcases List.mem_cons.mp hu with rfl | hu
      · intro hend
        rw [hend] at hspells
        cases hspells
        exact htext rfl
      · exact hfront u hu

/-- Behind a part of the source that is as long as the offset, spans cut out the texts of tokens. -/
theorem spelled (h : Lexed n cs ts) (front : List Char) (hn : front.length = n) :
    ∀ t ∈ ts, Spells t.kind ((front ++ cs).extract t.span.start t.span.stop) := by
  induction h generalizing front with
  | last _ hkind hstart hstop =>
    intro t ht
    obtain rfl := List.mem_singleton.mp ht
    rw [hkind, hstop]
    simpa using Spells.endOfInput
  | @token n gap text rest t ts _ _ hspells hstart hstop _ ih =>
    intro u hu
    rcases List.mem_cons.mp hu with rfl | hu
    · have htext := extract_middle (front ++ gap) text rest (i := u.span.start)
        (by simp; omega) hstop
      rw [List.append_assoc] at htext
      rwa [htext]
    · have := ih (front ++ gap ++ text) (by simp; omega) u hu
      simpa using this

/-- Likewise, what lies between spans are gaps. -/
theorem gaps (h : Lexed n cs ts) (front : List Char) (hn : front.length = n) :
    ∀ p ∈ (n :: ts.map (·.span.stop)).zip ts,
      IsGap ((front ++ cs).drop p.2.span.start) ((front ++ cs).extract p.1 p.2.span.start) := by
  induction h generalizing front with
  | @last n gap t hgap _ hstart _ =>
    intro p hp
    obtain rfl : p = (n, t) := by simpa using hp
    have hcut := extract_middle front gap [] hn.symm hstart
    rw [List.append_nil] at hcut
    rw [hcut, List.drop_eq_nil_of_le (by simp; omega)]
    exact hgap
  | @token n gap text rest t ts hgap _ _ hstart hstop _ ih =>
    intro p hp
    rw [List.map_cons, List.zip_cons_cons] at hp
    rcases List.mem_cons.mp hp with rfl | hp
    · have hdrop : (front ++ (gap ++ (text ++ rest))).drop t.span.start = text ++ rest := by
        rw [← List.append_assoc, List.drop_left' (by simp; omega)]
      rw [extract_middle front gap (text ++ rest) hn.symm hstart, hdrop]
      exact hgap
    · have := ih (front ++ gap ++ text) (by simp; omega) p hp
      simpa using this

end Lexed

/-- **Nothing is lost.** The spans of the tokens of a source follow one another, only the end of the
source, which is the last token, has an empty one, and the characters of the source are the
spellings of the tokens in their spans with gaps between them. -/
theorem tokenize_lossless {source : String} {tokens : List Token}
    (h : tokenize source = .ok tokens) : Lossless source.toList tokens := by
  have hlexed := lexed_of_tokenize h
  refine ⟨hlexed.ordered, hlexed.nonempty, ?_, hlexed.spelled [] rfl, hlexed.gaps [] rfl⟩
  have hends := hlexed.ends
  rwa [Nat.zero_add] at hends

/-- Comments, a tag, a number with an exponent and a string with an escape. -/
def gapText : String := "/* a */ <p x=\"\\u0041\"> // b\n1.5e3\ufeff</p>"

theorem tokenize_gapText :
    ∃ tokens, tokenize gapText = .ok tokens ∧ tokens.length = 12 ∧
      Lossless gapText.toList tokens := by
  have hlength : (tokenize gapText).toOption.any (·.length == 12) = true := by decide +kernel
  cases h : tokenize gapText with
  | error e =>
    rw [h] at hlength
    cases hlength
  | ok tokens =>
    rw [h] at hlength
    exact ⟨tokens, rfl, by simpa [Except.toOption] using hlength, tokenize_lossless h⟩

end MarkupScript
