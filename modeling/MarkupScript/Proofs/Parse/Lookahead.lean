import MarkupScript.Proofs.Parse.Arrow
import MarkupScript.Proofs.Token.FrameMoves

/-!
# Looking ahead and open frames

To tell an arrow function from an expression in parentheses, the parser counts parentheses until
those that it met are closed, and passes over all other marks. The reader of tokens has compared
every closing mark with the innermost frame before. So the parenthesis where the count comes to zero
is the one that closes the frame of the first, whatever brackets, braces and tags lie between, and
if the frame is never closed the count stays above zero.
-/

namespace MarkupScript

namespace Parse

/-! ### The count of open parentheses -/

/-- Looking ahead with `depth` open parentheses comes to an answer. A closing parenthesis lowers the
depth by one, so that there is no answer where the depth is zero already. -/
inductive LooksAhead : Nat → List Token → Bool → Prop
  | nothing (depth : Nat) : LooksAhead depth [] false
  | ends {depth : Nat} {t : Token} {ahead : List Token} : t.kind = .endOfInput →
      LooksAhead depth (t :: ahead) false
  | passes {depth : Nat} {t : Token} {ahead : List Token} {answer : Bool} :
      isFlat t.kind = true → LooksAhead depth ahead answer → LooksAhead depth (t :: ahead) answer
  | opens {depth : Nat} {t : Token} {ahead : List Token} {answer : Bool} :
      t.kind = .symbol .leftParen → LooksAhead (depth + 1) ahead answer →
      LooksAhead depth (t :: ahead) answer
  | closes {depth : Nat} {t : Token} {ahead : List Token} {answer : Bool} :
      t.kind = .symbol .rightParen → depth ≠ 0 → LooksAhead depth ahead answer →
      LooksAhead (depth + 1) (t :: ahead) answer
  | last {t : Token} {ahead : List Token} : t.kind = .symbol .rightParen →
      LooksAhead 1 (t :: ahead) (ahead.head?.any (·.kind == .symbol .arrow))

theorem LooksAhead.eq {depth : Nat} {ahead : List Token} {answer : Bool}
    (h : LooksAhead depth ahead answer) : answer = arrowAfterParens depth ahead := by
  induction h with
  | nothing => rfl
  | ends ht => rw [arrowAfterParens, ht]
  | passes ht _ ih => rw [ih, arrowAfterParens_eq, arrowAfterParens_eq, behindParens_flat ht]
  | opens ht _ ih => rw [ih, arrowAfterParens, ht]
  | closes ht hdepth _ ih =>
    rw [ih, arrowAfterParens_eq, arrowAfterParens_eq, behindParens_close ht, if_neg hdepth]
  | last ht => rw [arrowAfterParens_eq, behindParens_close ht]; rfl

/-- With a parenthesis open, looking ahead always comes to an answer: it is done as soon as the
depth is zero. -/
theorem looksAhead_succ (depth : Nat) (ahead : List Token) :
    ∃ answer, LooksAhead (depth + 1) ahead answer := by
  induction ahead generalizing depth with
  | nil => exact ⟨false, .nothing _⟩
  | cons t ahead ih =>
    by_cases hflat : isFlat t.kind = true
    · obtain ⟨answer, h⟩ := ih depth
      exact ⟨answer, .passes hflat h⟩
    · unfold isFlat at hflat
      split at hflat
      · next ht =>
        obtain ⟨answer, h⟩ := ih (depth + 1)
        exact ⟨answer, .opens ht h⟩
      · next ht =>
        cases depth with
        | zero => exact ⟨_, .last ht⟩
        | succ depth =>
          obtain ⟨answer, h⟩ := ih depth
          exact ⟨answer, .closes ht (Nat.succ_ne_zero depth) h⟩
      · next ht => exact ⟨false, .ends ht⟩
      · exact absurd rfl hflat

section

variable {s : Stream} {t : Token} {ahead : List Token}

theorem arrowAhead_eq (hs : s.ahead = t :: ahead) (ht : t.kind = .symbol .leftParen) :
    arrowAhead s = arrowAfterParens 0 (t :: ahead) := by
  have hkind : s.kind = .symbol .leftParen := by
    rw [Stream.kind, Stream.next, hs]
    exact ht
  rw [arrowAhead, hkind, hs]

theorem arrowAhead_eq_any (hs : s.ahead = t :: ahead) (ht : t.kind = .symbol .leftParen) :
    arrowAhead s = (behindParens 1 ahead).any (·.head?.any (·.kind == .symbol .arrow)) := by
  rw [arrowAhead_eq hs ht, arrowAfterParens_eq, behindParens_open ht]

/-- At a parenthesis, looking ahead comes to the answer that is given, and to no other one. -/
theorem looksAhead_iff (hs : s.ahead = t :: ahead) (ht : t.kind = .symbol .leftParen)
    (answer : Bool) : LooksAhead 0 s.ahead answer ↔ answer = arrowAhead s := by
  rw [arrowAhead_eq hs ht, hs]
  constructor
  · exact LooksAhead.eq
  · rintro rfl
    obtain ⟨answer, h⟩ := looksAhead_succ 0 ahead
    have hopen : LooksAhead 0 (t :: ahead) answer := .opens ht h
    exact hopen.eq ▸ hopen

end

end Parse

/-! ### The count and the frames -/

theorem Kind.isFlat_of_isPlain {k : Kind} (h : k.isPlain = true) (hend : k ≠ .endOfInput) :
    Parse.isFlat k = true := by
  unfold Parse.isFlat
  split
  · cases h
  · cases h
  · exact absurd rfl hend
  · rfl

/-- Of all closing marks, a closing parenthesis is the one for a frame of parentheses. -/
theorem Symbol.rightParen_or_isFlat {m : Symbol} {f : Frame} (h : m.opener? = some f.opener) :
    f = .parens ∧ m = .rightParen ∨ f ≠ .parens ∧ Parse.isFlat (.symbol m) = true := by
  revert h
  cases m <;> cases f <;> decide

/-- Of all opening marks, a parenthesis is the one that opens a frame of parentheses. -/
theorem Frame.parens_or_isFlat (f : Frame) :
    f = .parens ∨ f ≠ .parens ∧ Parse.isFlat (.symbol f.opener) = true := by
  cases f <;> decide

/-- While a frame of parentheses is open, the frames of parentheses from it inwards are as many as
the look ahead has counted. One token closes the frame or keeps count. -/
theorem FrameMove.behindParens {inner fs fs' : Frames} {t : Token}
    (h : FrameMove (inner ++ .parens :: fs) t.kind fs') (hend : t.kind ≠ .endOfInput) :
    (inner = [] ∧ t.kind = .symbol .rightParen ∧ fs' = fs) ∨
    ∃ inner', fs' = inner' ++ .parens :: fs ∧ ∀ ahead,
      Parse.behindParens (inner.count .parens + 1) (t :: ahead) =
        Parse.behindParens (inner'.count .parens + 1) ahead := by
  generalize hgs : inner ++ .parens :: fs = gs at h
  generalize hk : t.kind = k at h hend
  cases h with
  | stays _ hplain =>
    refine .inr ⟨inner, hgs.symm, fun ahead => ?_⟩
    exact Parse.behindParens_flat (hk ▸ Kind.isFlat_of_isPlain hplain hend) _ _
  | turns fs₁ hplain =>
    cases inner with
    | nil => cases hgs
    | cons f inner =>
      cases hgs
      refine .inr ⟨.closeTag :: inner, rfl, fun ahead => ?_⟩
      rw [Parse.behindParens_flat (hk ▸ Kind.isFlat_of_isPlain hplain hend)]
      simp
  | opens f =>
    refine .inr ⟨f :: inner, by rw [← hgs]; rfl, fun ahead => ?_⟩
    rcases f.parens_or_isFlat with rfl | ⟨hf, hflat⟩
    · rw [Parse.behindParens_open hk, List.count_cons_self]
    · rw [Parse.behindParens_flat (hk ▸ hflat), List.count_cons_of_ne hf]
  | @closes m f fs' hopener =>
    have hm := Symbol.rightParen_or_isFlat hopener
    cases inner with
    | nil =>
      cases hgs
      rcases hm with ⟨-, rfl⟩ | ⟨hf, -⟩
      · exact .inl ⟨rfl, rfl, rfl⟩
      · exact absurd rfl hf
    | cons f inner =>
      cases hgs
      refine .inr ⟨inner, rfl, fun ahead => ?_⟩
      rcases hm with ⟨rfl, rfl⟩ | ⟨hf, hflat⟩
      · rw [List.count_cons_self, Parse.behindParens_close hk, if_neg (Nat.succ_ne_zero _)]
      · rw [List.count_cons_of_ne hf, Parse.behindParens_flat (hk ▸ hflat)]

/-- **Counting finds the closing parenthesis.** From anywhere inside a frame of parentheses, either
a parenthesis closes the frame and counting ends right behind it, or the frame is open to the end
of the source and counting finds nothing. -/
theorem Scanner.Trace.closedBy_or_openThrough {source : String} {tokens front back : List Token}
    {s s' : Scanner} (hback : Trace s back s') (hfront : Trace (.start source.toList) front s)
    {inner fs : Frames} (hframes : s.frames = inner ++ .parens :: fs) {last : Token}
    (hlast : last.kind = .endOfInput) (htokens : tokens = front ++ (back ++ [last])) :
    (∃ j u, ClosedBy source .parens fs front.length j ∧ tokens[j]? = some u ∧
      u.kind = .symbol .rightParen ∧
      Parse.behindParens (inner.count .parens + 1) (back ++ [last]) =
        some (tokens.drop (j + 1))) ∨
    (∃ n, n + 1 = tokens.length ∧ OpenThrough source (.parens :: fs) front.length n ∧
      Parse.behindParens (inner.count .parens + 1) (back ++ [last]) = none) := by
  -- along the tokens to come, with those that were read to tell the number of each
  induction hback generalizing front inner with
  | nil s =>
    refine .inr ⟨front.length, by simp [htokens], .single (hframes ▸ hfront.frames_behind), ?_⟩
    rw [List.nil_append, Parse.behindParens, hlast]
  | @cons s s₁ s₂ s' k text back hgap htoken hreads _ ih =>
    have hbehind : framesBehind? source front.length = some (inner ++ .parens :: fs) :=
      hframes ▸ hfront.frames_behind
    have hnext := hfront.append (.cons hgap htoken hreads (.nil s₂))
    have htokens' : tokens = (front ++ [s₁.tokenOf k text]) ++ (back ++ [last]) := by
      rw [htokens, List.append_assoc]
      rfl
    have hmove : FrameMove (inner ++ .parens :: fs) (s₁.tokenOf k text).kind s₂.frames :=
      hframes ▸ hreads.moves hgap htoken
    rcases hmove.behindParens hreads.ne_endOfInput with
      ⟨rfl, hclose, hgone⟩ | ⟨inner', hinner', hcount⟩
    · have hbehindNext := hnext.frames_behind
      rw [List.length_append, hgone] at hbehindNext
      refine .inl ⟨front.length, _, ⟨Nat.le_refl _, .single hbehind, hbehind, hbehindNext⟩, ?_,
        hclose, ?_⟩
      · rw [htokens, List.getElem?_append_right (Nat.le_refl _), Nat.sub_self]
        rfl
      · rw [htokens', List.drop_left' (by simp)]
        exact Parse.behindParens_close hclose 0 _
    · rw [List.cons_append, hcount]
      have hfate := ih hnext hinner' htokens'
      rw [List.length_append, List.length_singleton] at hfate
      rcases hfate with ⟨j, u, hclosed, hj⟩ | ⟨n, hn, hopen, hnone⟩
      · exact .inl ⟨j, u, hclosed.cons hbehind, hj⟩
      · exact .inr ⟨n, hn, hopen.cons hbehind, hnone⟩

/-! ### At a parenthesis of a source -/

theorem FrameMove.eq_parens_cons {fs fs' : Frames} (h : FrameMove fs (.symbol .leftParen) fs') :
    fs' = .parens :: fs := by
  generalize hk : Kind.symbol .leftParen = k at h
  cases h with
  | stays _ hplain | turns _ hplain =>
    subst hk
    cases hplain
  | opens f => cases f <;> first | rfl | cases hk
  | closes f _ hopener =>
    cases hk
    cases hopener

/-- A token that is not the end of the source lies before it. -/
theorem exists_front_of_getElem? {ts : List Token} {last t : Token} {i : Nat}
    (hi : (ts ++ [last])[i]? = some t) (hlast : last.kind ≠ t.kind) :
    ∃ front back, ts = front ++ t :: back ∧ front.length = i := by
  by_cases hlt : i < ts.length
  · rw [List.getElem?_append_left hlt, List.getElem?_eq_getElem hlt] at hi
    cases hi
    refine ⟨ts.take i, ts.drop (i + 1), ?_, List.length_take_of_le (Nat.le_of_lt hlt)⟩
    rw [← List.drop_eq_getElem_cons hlt, List.take_append_drop]
  · rw [List.getElem?_append_right (Nat.le_of_not_lt hlt)] at hi
    obtain rfl := List.mem_singleton.mp (List.mem_of_getElem? hi)
    exact absurd rfl hlast

/-- A parenthesis opens a frame. Either counting from there ends behind the token that closes the
frame, or the frame is still open where the source ends and counting finds nothing. -/
theorem exists_frame_of_leftParen {source : String} {tokens : List Token} {i : Nat} {t : Token}
    (h : tokenize source = .ok tokens) (hi : tokens[i]? = some t)
    (ht : t.kind = .symbol .leftParen) :
    ∃ fs, framesBehind? source i = some fs ∧ framesBehind? source (i + 1) = some (.parens :: fs) ∧
      ((∃ j u, ClosedBy source .parens fs (i + 1) j ∧ tokens[j]? = some u ∧
          u.kind = .symbol .rightParen ∧
          Parse.behindParens 1 (tokens.drop (i + 1)) = some (tokens.drop (j + 1))) ∨
        (∃ n, n + 1 = tokens.length ∧ OpenThrough source (.parens :: fs) (i + 1) n ∧
          Parse.behindParens 1 (tokens.drop (i + 1)) = none)) := by
  obtain ⟨ts, s', s'', -, htrace, -, -, rfl⟩ := exists_trace_of_tokenize h
  obtain ⟨front, back, rfl, rfl⟩ := exists_front_of_getElem? hi (by rw [ht]; nofun)
  obtain ⟨s, hfront, hrest⟩ := htrace.of_append
  cases hrest with
  | @cons _ s₁ s₂ _ k text back hgap htoken hreads hback =>
    have hframes : s₂.frames = .parens :: s.frames := by
      have hmove := hreads.moves hgap htoken
      rw [show k = .symbol .leftParen from ht] at hmove
      exact hmove.eq_parens_cons
    have hnext := hfront.append (.cons hgap htoken hreads (.nil s₂))
    have hopen := hnext.frames_behind
    rw [List.length_append, hframes] at hopen
    refine ⟨s.frames, hfront.frames_behind, hopen, ?_⟩
    generalize hlast : s''.tokenOf .endOfInput [] = last
    have htokens : front ++ s₁.tokenOf k text :: back ++ [last] =
        (front ++ [s₁.tokenOf k text]) ++ (back ++ [last]) := by
      simp
    have hinside : s₂.frames = [] ++ .parens :: s.frames := hframes
    have hfate := hback.closedBy_or_openThrough hnext hinside (hlast ▸ rfl) htokens
    rw [List.length_append, List.length_singleton] at hfate
    rwa [htokens, List.drop_left' (by simp), ← htokens]

/-- **Looking ahead agrees with the frames.** At every parenthesis that opens in a source, looking
ahead comes to one answer and never has to lower a depth of zero. The parenthesis opens a frame, and
the answer is yes just if a parenthesis closes that frame and the token behind it is an arrow. -/
theorem arrowAhead_iff_closedBy {source : String} {tokens : List Token} {i : Nat} {t : Token}
    {s : Stream} (h : tokenize source = .ok tokens) (hi : tokens[i]? = some t)
    (ht : t.kind = .symbol .leftParen) (hs : s.ahead = tokens.drop i) :
    (∀ answer, Parse.LooksAhead 0 s.ahead answer ↔ answer = Parse.arrowAhead s) ∧
    ∃ fs, framesBehind? source i = some fs ∧ framesBehind? source (i + 1) = some (.parens :: fs) ∧
      (Parse.arrowAhead s = true ↔ ∃ j u v, ClosedBy source .parens fs (i + 1) j ∧
        tokens[j]? = some u ∧ u.kind = .symbol .rightParen ∧
        tokens[j + 1]? = some v ∧ v.kind = .symbol .arrow) := by
  have hahead : s.ahead = t :: tokens.drop (i + 1) := by
    obtain ⟨hlt, rfl⟩ := List.getElem?_eq_some_iff.mp hi
    rw [hs, List.drop_eq_getElem_cons hlt]
  refine ⟨Parse.looksAhead_iff hahead ht, ?_⟩
  obtain ⟨fs, hbefore, hbehind, hfate⟩ := exists_frame_of_leftParen h hi ht
  refine ⟨fs, hbefore, hbehind, ?_⟩
  rw [Parse.arrowAhead_eq_any hahead ht]
  rcases hfate with ⟨j, u, hclosed, hj, hu, hcount⟩ | ⟨n, hn, hopen, hcount⟩
  · rw [hcount, Option.any_some, List.head?_drop, Option.any_eq_true]
    constructor
    · rintro ⟨v, hv, harrow⟩
      exact ⟨j, u, v, hclosed, hj, hu, hv, beq_iff_eq.mp harrow⟩
    · rintro ⟨j', -, v, hclosed', -, -, hv, harrow⟩
      obtain rfl := hclosed.unique hclosed'
      exact ⟨v, hv, beq_iff_eq.mpr harrow⟩
  · rw [hcount]
    constructor
    · rintro ⟨⟩
    · -- behind the last token nothing can follow
      rintro ⟨j, -, v, hclosed, -, -, hv, -⟩
      have hle := hopen.le_of_closedBy hclosed
      obtain ⟨hlt, -⟩ := List.getElem?_eq_some_iff.mp hv
      omega

/-- Two parentheses. The first is never closed. In the second are other parentheses, a block, a tag,
braces and brackets, and an arrow comes behind it. -/
def aheadText : String := "((a, b = () => \x7b <p x=\x7b[(1)]\x7d/> \x7d) => 0"

theorem arrowAhead_aheadText : ∃ tokens t t', tokenize aheadText = .ok tokens ∧
    (tokens[0]? = some t ∧ t.kind = .symbol .leftParen ∧
      Parse.arrowAhead (.ofTokens tokens) = false ∧
      ¬∃ j u v, ClosedBy aheadText .parens [] 1 j ∧ tokens[j]? = some u ∧
        u.kind = .symbol .rightParen ∧ tokens[j + 1]? = some v ∧ v.kind = .symbol .arrow) ∧
    (tokens[1]? = some t' ∧ t'.kind = .symbol .leftParen ∧
      Parse.arrowAhead (.ofTokens (tokens.drop 1)) = true ∧
      Parse.LooksAhead 0 (tokens.drop 1) true ∧
      ∃ j u v, ClosedBy aheadText .parens [.parens] 2 j ∧ tokens[j]? = some u ∧
        u.kind = .symbol .rightParen ∧ tokens[j + 1]? = some v ∧ v.kind = .symbol .arrow) := by
  have hcheck : (tokenize aheadText).toOption.any (fun tokens =>
      tokens[0]?.any (·.kind == .symbol .leftParen) &&
      tokens[1]?.any (·.kind == .symbol .leftParen) &&
      !Parse.arrowAhead (.ofTokens tokens) && Parse.arrowAhead (.ofTokens (tokens.drop 1))) =
        true := by
    decide +kernel
  have hone : framesBehind? aheadText 1 = some [.parens] := by decide +kernel
  cases h : tokenize aheadText with
  | error e =>
    rw [h] at hcheck
    cases hcheck
  | ok tokens =>
    rw [h] at hcheck
    obtain ⟨⟨⟨⟨t, hfirst, ht⟩, t', hsecond, ht'⟩, hno⟩, hyes⟩ :
        (((∃ t, tokens[0]? = some t ∧ t.kind = .symbol .leftParen) ∧
          ∃ t, tokens[1]? = some t ∧ t.kind = .symbol .leftParen) ∧
          Parse.arrowAhead (.ofTokens tokens) = false) ∧
          Parse.arrowAhead (.ofTokens (tokens.drop 1)) = true := by
      simpa [Except.toOption, Option.any_eq_true] using hcheck
    obtain ⟨-, fs, hzero, -, hfalse⟩ :=
      arrowAhead_iff_closedBy h hfirst ht (s := .ofTokens tokens) rfl
    obtain ⟨hlooks, fs', hone', -, htrue⟩ :=
      arrowAhead_iff_closedBy h hsecond ht' (s := .ofTokens (tokens.drop 1)) rfl
    cases hzero
    cases hone.symm.trans hone'
    refine ⟨tokens, t, t', rfl, ⟨hfirst, ht, hno, ?_⟩, hsecond, ht', hyes, ?_, htrue.mp hyes⟩
    · intro hclosed
      exact Bool.false_ne_true (hno.symm.trans (hfalse.mpr hclosed))
    · exact (hlooks true).mpr hyes.symm

end MarkupScript
