import MarkupScript.Proofs.Token.FrameDiscipline

/-!
# Line ends between tokens

A token notes whether a line ended in front of it. Of the line ends in a gap, the reader takes note
of those outside comments, and inside a closed comment of line feeds only. A line comment ends in
front of a line feed or a carriage return, which then stands outside; any other character that ends
a line belongs to the comment. So a comment can hide a line end, and a token behind it notes nothing
unless another line ends in the same gap (`tokenize_newlineBefore`).
-/

namespace MarkupScript

/-! ### The pieces of a gap -/

/-- A piece of a gap: a blank, or a comment with the text between its marks. -/
inductive GapPiece where
  | blank (c : Char)
  | lineComment (text : List Char)
  | closedComment (text : List Char)

namespace GapPiece

/-- What a piece is written like. -/
def code : GapPiece → List Char
  | blank c => [c]
  | lineComment text => '/' :: '/' :: text
  | closedComment text => '/' :: '*' :: (text ++ ['*', '/'])

/-- Whether a piece can stand in front of other characters. A line comment runs to the end of its
line or of the source, and a closed comment to the first mark that closes it. -/
def Fits (behind : List Char) : GapPiece → Prop
  | blank c => isSpace c = true
  | lineComment text =>
    (∀ c ∈ text, c ≠ '\n' ∧ c ≠ '\r') ∧ ∀ c ∈ behind.head?, c = '\n' ∨ c = '\r'
  | closedComment text => ¬ ['*', '/'] <:+: text

/-- Whether the reader takes note of a line end in a piece. -/
def endsLine : GapPiece → Bool
  | blank c => isLineEnd c
  | lineComment _ => false
  | closedComment text => text.contains '\n'

/-- Whether there is a line end in a piece that the reader takes no note of, and none that it takes
note of. -/
def hidesLineEnd : GapPiece → Bool
  | blank _ => false
  | lineComment text => text.any isLineEnd
  | closedComment text => text.any isLineEnd && !text.contains '\n'

theorem any_code_isLineEnd (q : GapPiece) :
    q.code.any isLineEnd = (q.endsLine || q.hidesLineEnd) := by
  cases q with
  | blank c => simp [code, endsLine, hidesLineEnd]
  | lineComment text =>
    have hmark : isLineEnd '/' = false := by decide
    simp [code, endsLine, hidesLineEnd, hmark]
  | closedComment text =>
    have hmarks : isLineEnd '/' = false ∧ isLineEnd '*' = false := by decide
    have hfeed : text.contains '\n' = true → text.any isLineEnd = true := by
      intro hmem
      exact List.any_eq_true.mpr ⟨'\n', List.contains_iff_mem.mp hmem, by decide⟩
    simp only [code, endsLine, hidesLineEnd, List.any_cons, List.any_append, List.any_nil, hmarks.1,
      hmarks.2, Bool.or_false, Bool.false_or]
    cases hcontains : text.contains '\n' with
    | false => simp
    | true => simp [hfeed hcontains]

end GapPiece

/-- The pieces make up the gap in front of `rest`, each of them in its place. -/
inductive MadeUp (rest : List Char) : List GapPiece → List Char → Prop
  | nil : MadeUp rest [] []
  | cons {q : GapPiece} {qs : List GapPiece} {gap : List Char} : q.Fits (gap ++ rest) →
      MadeUp rest qs gap → MadeUp rest (q :: qs) (q.code ++ gap)

/-- A gap is made up of pieces. -/
theorem IsGap.exists_madeUp {rest gap : List Char} (h : IsGap rest gap) :
    ∃ pieces, MadeUp rest pieces gap := by
  induction h with
  | nil => exact ⟨[], .nil⟩
  | @blank c gap hc _ ih =>
    obtain ⟨pieces, hpieces⟩ := ih
    have hfits : (GapPiece.blank c).Fits (gap ++ rest) := by simpa [GapPiece.Fits, isSpace] using hc
    exact ⟨_, .cons hfits hpieces⟩
  | @lineComment text gap htext hend _ ih =>
    obtain ⟨pieces, hpieces⟩ := ih
    have hfits : (GapPiece.lineComment text).Fits (gap ++ rest) := ⟨htext, hend⟩
    exact ⟨_, .cons hfits hpieces⟩
  | @closedComment text gap htext _ ih =>
    obtain ⟨pieces, hpieces⟩ := ih
    have hfits : (GapPiece.closedComment text).Fits (gap ++ rest) := htext
    have hgap := MadeUp.cons hfits hpieces
    simp only [GapPiece.code, List.cons_append, List.append_assoc, List.nil_append] at hgap
    exact ⟨_, hgap⟩

/-- There is a line end in a gap if the reader takes note of one or a piece hides one. -/
theorem MadeUp.any_isLineEnd {rest gap : List Char} {pieces : List GapPiece}
    (h : MadeUp rest pieces gap) :
    gap.any isLineEnd = (pieces.any (·.endsLine) || pieces.any (·.hidesLineEnd)) := by
  induction h with
  | nil => rfl
  | @cons q qs gap _ _ ih =>
    simp only [List.any_append, List.any_cons, q.any_code_isLineEnd, ih, Bool.or_assoc,
      Bool.or_left_comm]

/-! ### Moving over pieces -/

section

variable {text behind : List Char}

theorem skipGap_blank {c : Char} (hc : isSpace c = true) (p : Place) (newline : Bool) :
    ∃ p', skipGap .blanks p newline (c :: behind) =
      skipGap .blanks p' (newline || isLineEnd c) behind := by
  by_cases hreturn : c = '\r' ∧ ∃ ds, behind = '\n' :: ds
  · -- the two characters end one line, so that the second is not looked at by itself
    obtain ⟨rfl, ds, rfl⟩ := hreturn
    refine ⟨p.right 1, ?_⟩
    rw [show isLineEnd '\r' = true from rfl, Bool.or_true]
    rfl
  · have hslash : c ≠ '/' := by
      rintro rfl
      exact absurd hc (by decide)
    have hstep : skipGap .blanks p newline (c :: behind) =
        if isLineEnd c = true then skipGap .blanks (p.nextLine 1) true behind
        else if isSpace c = true then skipGap .blanks (p.right 1) newline behind
        else .ok ⟨p, newline, c :: behind⟩ := by
      rw [skipGap]
      · intro ds hc hds
        exact hreturn ⟨hc, ds, hds⟩
      · intro ds hc
        exact absurd hc hslash
      · intro ds hc
        exact absurd hc hslash
    rw [hstep]
    cases hline : isLineEnd c with
    | true => exact ⟨p.nextLine 1, by rw [if_pos rfl, Bool.or_true]⟩
    | false => exact ⟨p.right 1, by rw [if_neg Bool.false_ne_true, if_pos hc, Bool.or_false]⟩

/-- At the end of its line, a line comment is over. -/
theorem skipGap_lineComment_end (hend : ∀ c ∈ behind.head?, c = '\n' ∨ c = '\r') (p : Place)
    (newline : Bool) :
    skipGap .lineComment p newline behind = skipGap .blanks p newline behind := by
  cases behind with
  | nil => rfl
  | cons c ds =>
    rcases hend c rfl with rfl | rfl
    · rfl
    · by_cases hfeed : ∃ es, ds = '\n' :: es
      · obtain ⟨es, rfl⟩ := hfeed
        rfl
      · have hne : ∀ es, '\r' = '\r' → ds = '\n' :: es → False := fun es _ h => hfeed ⟨es, h⟩
        rw [skipGap, skipGap]
        · rfl
        · exact hne
        · exact hne
        · intro es h
          exact absurd h (by decide)
        · intro es h
          exact absurd h (by decide)

/-- A line comment goes on to where its line ends. -/
theorem skipGap_lineComment (htext : ∀ c ∈ text, c ≠ '\n' ∧ c ≠ '\r')
    (hend : ∀ c ∈ behind.head?, c = '\n' ∨ c = '\r') (p : Place) (newline : Bool) :
    ∃ p', skipGap .lineComment p newline (text ++ behind) = skipGap .blanks p' newline behind := by
  induction text generalizing p with
  | nil => exact ⟨p, skipGap_lineComment_end hend p newline⟩
  | cons c text ih =>
    rw [List.forall_mem_cons] at htext
    obtain ⟨p', hp'⟩ := ih htext.2 (p.right 1)
    refine ⟨p', ?_⟩
    rw [List.cons_append, skipGap, if_neg (not_or.mpr htext.1), hp']
    intro ds hc
    exact absurd hc htext.1.2

/-- A closed comment goes on to the mark that closes it. -/
theorem skipGap_closedComment (htext : ¬ ['*', '/'] <:+: text) (opened p : Place)
    (newline : Bool) :
    ∃ p', skipGap (.closedComment opened) p newline (text ++ '*' :: '/' :: behind) =
      skipGap .blanks p' (newline || text.contains '\n') behind := by
  induction text generalizing p newline with
  | nil => exact ⟨p.right 2, by rw [List.contains_nil, Bool.or_false]; rfl⟩
  | cons c text ih =>
    have htail : ¬ ['*', '/'] <:+: text := fun h => htext (List.infix_cons h)
    have hclose : ∀ ds, c = '*' → text ++ '*' :: '/' :: behind = '/' :: ds → False := by
      rintro ds rfl hds
      cases text with
      | nil =>
        have hmark := (List.cons.inj hds).1
        exact absurd hmark (by decide)
      | cons d text =>
        obtain rfl := (List.cons.inj hds).1
        exact htext ⟨[], text, rfl⟩
    rw [List.cons_append, skipGap]
    · by_cases hc : c = '\n'
      · obtain ⟨p', hp'⟩ := ih htail (p.nextLine 1) true
        refine ⟨p', ?_⟩
        rw [if_pos hc, hp', hc, List.contains_cons, beq_self_eq_true]
        simp
      · obtain ⟨p', hp'⟩ := ih htail (p.right 1) newline
        refine ⟨p', ?_⟩
        rw [if_neg hc, hp', List.contains_cons, beq_false_of_ne (Ne.symm hc), Bool.false_or]
    · exact hclose

/-- Over a piece, the reader takes note of a line end if it is one that it takes note of. -/
theorem skipGap_piece {q : GapPiece} (h : q.Fits behind) (p : Place) (newline : Bool) :
    ∃ p', skipGap .blanks p newline (q.code ++ behind) =
      skipGap .blanks p' (newline || q.endsLine) behind := by
  cases q with
  | blank c => exact skipGap_blank h p newline
  | lineComment text =>
    rw [GapPiece.endsLine, Bool.or_false]
    exact skipGap_lineComment h.1 h.2 (p.right 2) newline
  | closedComment text =>
    have hcode : (GapPiece.closedComment text).code ++ behind =
        '/' :: '*' :: (text ++ '*' :: '/' :: behind) := by simp [GapPiece.code]
    rw [hcode]
    exact skipGap_closedComment h p (p.right 2) newline

end

/-- Over a gap, the reader takes note of a line end if it takes note of one in some piece. -/
theorem MadeUp.skipGap {rest gap : List Char} {pieces : List GapPiece}
    (h : MadeUp rest pieces gap) (p : Place) (newline : Bool) :
    ∃ p', MarkupScript.skipGap .blanks p newline (gap ++ rest) =
      MarkupScript.skipGap .blanks p' (newline || pieces.any (·.endsLine)) rest := by
  induction h generalizing p newline with
  | nil => exact ⟨p, by rw [List.any_nil, Bool.or_false, List.nil_append]⟩
  | @cons q qs gap hq _ ih =>
    obtain ⟨p₁, h₁⟩ := skipGap_piece hq p newline
    obtain ⟨p₂, h₂⟩ := ih p₁ (newline || q.endsLine)
    exact ⟨p₂, by rw [List.append_assoc, h₁, h₂, List.any_cons, Bool.or_assoc]⟩

/-- Where the reader does not move, it takes note of nothing. -/
theorem newline_of_skipGap {p : Place} {newline : Bool} {cursor : Cursor}
    (h : skipGap .blanks p newline cursor.rest = .ok cursor) : cursor.newline = newline := by
  have hmoves {part : GapPart} {p : Place} {newline : Bool} {cs : List Char}
      (h : skipGap part p newline cs = .ok cursor) : ¬ cs.length < cursor.rest.length := by
    obtain ⟨gap, hgap, -⟩ := skipGap_leads h
    rw [hgap, List.length_append]
    omega
  generalize hrest : cursor.rest = rest at h
  unfold skipGap at h
  split at h
  · exact absurd (by simp only [hrest, List.length_cons]; omega) (hmoves h)
  · exact absurd (by simp only [hrest, List.length_cons]; omega) (hmoves h)
  · exact absurd (by simp only [hrest, List.length_cons]; omega) (hmoves h)
  · split at h
    · exact absurd (by simp [hrest]) (hmoves h)
    · split at h
      · exact absurd (by simp [hrest]) (hmoves h)
      · cases h
        rfl
  · cases h
    rfl
  all_goals contradiction

/-! ### The gap in front of a token -/

/-- Where the last of some tokens ends, or the beginning of the source. -/
def lastStop (ts : List Token) : Nat := (ts.getLast?.map (·.span.stop)).getD 0

/-- The characters between some tokens and a token behind them. -/
def gapBefore (source : List Char) (front : List Token) (t : Token) : List Char :=
  source.extract (lastStop front) t.span.start

namespace Scanner

/-- The reader stands at an offset of the source, and no line has ended since its latest token. -/
structure Rests (source : List Char) (offset : Nat) (s : Scanner) : Prop where
  rest : s.rest = source.drop offset
  offset : s.place.offset = offset
  newline : s.newline = false

theorem gap_rest {source : List Char} {n : Nat} {s s' : Scanner} (hs : s.Rests source n)
    (h : s.gap = .ok s') : s'.rest = source.drop s'.place.offset := by
  obtain ⟨gap, hrest, hoffset, -⟩ := gap_eq_ok h
  rw [hs.rest] at hrest
  rw [hoffset, hs.offset, ← List.drop_drop, hrest, List.drop_left]

theorem Rests.reads {source text : List Char} {n : Nat} {s s₁ s₂ : Scanner} {k : Kind}
    (hs : s.Rests source n) (hgap : s.gap = .ok s₁) (hreads : s₁.Reads k text s₂) :
    s₂.Rests source (s₁.tokenOf k text).span.stop := by
  refine ⟨?_, hreads.offset, hreads.newline⟩
  have hrest := gap_rest hs hgap
  rw [hreads.rest] at hrest
  show s₂.rest = source.drop (s₁.place.offset + text.length)
  rw [← List.drop_drop, ← hrest, List.drop_left]

/-- Behind tokens, the reader stands where the last of them ends. -/
theorem Trace.rests {source : List Char} {n : Nat} {ts : List Token} {s s' : Scanner}
    (h : Trace s ts s') (hs : s.Rests source n) :
    s'.Rests source ((ts.getLast?.map (·.span.stop)).getD n) := by
  induction h generalizing n with
  | nil => exact hs
  | @cons s s₁ s₂ s' k text ts hgap _ hreads _ ih =>
    have hlast := ih (hs.reads hgap hreads)
    rw [List.getLast?_cons]
    cases hts : ts.getLast? <;> rw [hts] at hlast <;> exact hlast

/-- Each token on the way is read where it stands in the source. -/
theorem Trace.exists_token {source : List Char} {n : Nat} {ts : List Token} {s s' : Scanner}
    (h : Trace s ts s') (hs : s.Rests source n) {t : Token} (ht : t ∈ ts) :
    ∃ s₁ s₂ text, token s₁ = .ok s₂ ∧ s₁.Reads t.kind text s₂ ∧ t = s₁.tokenOf t.kind text ∧
      s₁.rest = source.drop t.span.start := by
  induction h generalizing n with
  | nil => cases ht
  | @cons s s₁ s₂ s' k text ts hgap htoken hreads _ ih =>
    rcases List.mem_cons.mp ht with rfl | ht
    · exact ⟨s₁, s₂, text, htoken, hreads, rfl, gap_rest hs hgap⟩
    · exact ih (hs.reads hgap hreads) ht

/-- The reader takes note of the line ends in a gap that it takes note of in its pieces. -/
theorem gap_newline {s s' : Scanner} (h : s.gap = .ok s') (hs : s.newline = false)
    {gap : List Char} {pieces : List GapPiece} (hrest : s.rest = gap ++ s'.rest)
    (hpieces : MadeUp s'.rest pieces gap) : s'.newline = pieces.any (·.endsLine) := by
  obtain ⟨cursor, hcursor, h⟩ := Except.bind_eq_ok.mp h
  cases h
  obtain ⟨p, hp⟩ := hpieces.skipGap s.place s.newline
  rw [hrest, hp, hs, Bool.false_or] at hcursor
  exact newline_of_skipGap hcursor

end Scanner

/-- The gap in front of a token is what the reader moved over. -/
theorem gap_gapBefore {source : String} {tokens front back : List Token} {t : Token}
    (h : tokenize source = .ok tokens) (hsplit : tokens = front ++ t :: back) :
    ∃ s s' : Scanner, s.gap = .ok s' ∧ s.newline = false ∧ t.newlineBefore = s'.newline ∧
      s'.rest = source.toList.drop t.span.start ∧
      s.rest = gapBefore source.toList front t ++ s'.rest ∧
      IsGap s'.rest (gapBefore source.toList front t) := by
  obtain ⟨s, s', text, -, htrace, hgap, ht, -⟩ := exists_gap_before h hsplit
  have hs : s.Rests source.toList (lastStop front) := htrace.rests ⟨rfl, rfl, rfl⟩
  have hstart : t.span.start = s'.place.offset := by rw [ht]; rfl
  obtain ⟨gap, hrest, hoffset, hisGap, -⟩ := Scanner.gap_eq_ok hgap
  have hbefore : gapBefore source.toList front t = gap := by
    rw [gapBefore, List.extract_eq_take_drop, ← hs.rest, hrest, hstart, hoffset, hs.offset,
      Nat.add_sub_cancel_left, List.take_left]
  refine ⟨s, s', hgap, hs.newline, by rw [ht]; rfl, ?_, ?_, ?_⟩
  · rw [hstart]
    exact Scanner.gap_rest hs hgap
  · rw [hbefore]
    exact hrest
  · rw [hbefore]
    exact hisGap

/-- **Line ends in front of a token.** The characters between a token and the one before it are made
up of blanks and comments. The token notes a line end if one of the blanks is one, or if one of the
closed comments has a line feed inside. That is whether a line ends in between, unless comments hide
all line ends that there are. -/
theorem tokenize_newlineBefore {source : String} {tokens front back : List Token} {t : Token}
    (h : tokenize source = .ok tokens) (hsplit : tokens = front ++ t :: back) :
    (∃ pieces, MadeUp (source.toList.drop t.span.start) pieces
      (gapBefore source.toList front t)) ∧
    ∀ pieces, MadeUp (source.toList.drop t.span.start) pieces (gapBefore source.toList front t) →
      (t.newlineBefore = true ↔ ∃ q ∈ pieces, q.endsLine = true) ∧
      ((t.newlineBefore = true ↔ ∃ c ∈ gapBefore source.toList front t, isLineEnd c = true) ↔
        ((∃ q ∈ pieces, q.hidesLineEnd = true) → ∃ q ∈ pieces, q.endsLine = true)) := by
  obtain ⟨s, s', hgap, hnewline, hflag, hbehind, hrest, hisGap⟩ := gap_gapBefore h hsplit
  rw [← hbehind]
  refine ⟨hisGap.exists_madeUp, fun pieces hpieces => ?_⟩
  have hnoted : t.newlineBefore = pieces.any (·.endsLine) :=
    hflag.trans (Scanner.gap_newline hgap hnewline hrest hpieces)
  have hall := hpieces.any_isLineEnd
  rw [← List.any_eq_true, ← List.any_eq_true, ← List.any_eq_true, hnoted, hall]
  cases pieces.any (·.endsLine) <;> cases pieces.any (·.hidesLineEnd) <;> simp

/-- A line comment that hides a line end, and the line end behind it. -/
def lineCommentText : String := "a // \u2028\nb"

theorem newlineBefore_lineCommentText :
    let a : Token := ⟨.identifier "a", ⟨0, 1, 1, 1⟩, false⟩
    let b : Token := ⟨.identifier "b", ⟨7, 8, 2, 1⟩, true⟩
    let pieces : List GapPiece := [.blank ' ', .lineComment [' ', '\u2028'], .blank '\n']
    tokenize lineCommentText = .ok [a, b, ⟨.endOfInput, ⟨8, 8, 2, 2⟩, false⟩] ∧
      MadeUp ['b'] pieces (gapBefore lineCommentText.toList [a] b) ∧
      (b.newlineBefore = true ↔ ∃ q ∈ pieces, q.endsLine = true) := by
  intro a b pieces
  have htokens : tokenize lineCommentText = .ok [a, b, ⟨.endOfInput, ⟨8, 8, 2, 2⟩, false⟩] := by
    decide +kernel
  have hgap : gapBefore lineCommentText.toList [a] b =
      [' ', '/', '/', ' ', '\u2028', '\n'] := by
    decide +kernel
  have hpieces : MadeUp ['b'] pieces (gapBefore lineCommentText.toList [a] b) := by
    have hblank : isSpace ' ' = true ∧ isSpace '\n' = true := by decide
    have hfeed : MadeUp ['b'] [.blank '\n'] ['\n'] := .cons hblank.2 .nil
    have hcomment : (GapPiece.lineComment [' ', '\u2028']).Fits (['\n'] ++ ['b']) :=
      ⟨by simp, by rintro c ⟨⟩; exact .inl rfl⟩
    rw [hgap]
    exact .cons hblank.1 (.cons hcomment hfeed)
  have hsplit : [a, b, ⟨.endOfInput, ⟨8, 8, 2, 2⟩, false⟩] = [a] ++ b :: _ := rfl
  exact ⟨htokens, hpieces, ((tokenize_newlineBefore htokens hsplit).2 pieces hpieces).1⟩

/-- A carriage return inside a comment, and nothing else that ends a line. -/
def hiddenReturnText : String := "a /*\r*/ b"

/-- A line ends between the two names and the second one does not note it. -/
theorem newlineBefore_hiddenReturnText :
    let a : Token := ⟨.identifier "a", ⟨0, 1, 1, 1⟩, false⟩
    let b : Token := ⟨.identifier "b", ⟨8, 9, 1, 9⟩, false⟩
    tokenize hiddenReturnText = .ok [a, b, ⟨.endOfInput, ⟨9, 9, 1, 10⟩, false⟩] ∧
      ¬ (b.newlineBefore = true ↔
        ∃ c ∈ gapBefore hiddenReturnText.toList [a] b, isLineEnd c = true) := by
  intro a b
  have hreturn : '\r' ∈ gapBefore hiddenReturnText.toList [a] b := by decide +kernel
  refine ⟨by decide +kernel, fun h => ?_⟩
  have hnoted : b.newlineBefore = true := h.mpr ⟨'\r', hreturn, by decide⟩
  exact Bool.false_ne_true hnoted

end MarkupScript
