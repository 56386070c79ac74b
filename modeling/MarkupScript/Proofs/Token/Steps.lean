import MarkupScript.Proofs.Parse.Reads
import MarkupScript.Proofs.Text.Characters

/-!
# Steps of the reader

Reading goes on in steps: a blank, a line end, a token. `Moves s ls fs r s'` says that reading from
`s` comes to `s'`, that the tokens on the way are the lexemes `ls`, and that the frames `fs` are open
and the characters `r` are left there. Steps are put together by `Moves.trans`.

`Scans` says in addition that no line ends on the way, except between the tokens of a block. What is
read on the line of the token before it stands on that line.
-/

namespace MarkupScript

theorem Shows.append_right {ls : List Lexeme} {ahead rest : List Token} (h : Shows ls ahead rest)
    (more : List Token) : Shows ls (ahead ++ more) (rest ++ more) := by
  induction ls generalizing ahead with
  | nil => exact congrArg (· ++ more) h
  | cons l ls ih =>
    obtain ⟨t, ahead', rfl, hl, h⟩ := h
    exact ⟨t, ahead' ++ more, rfl, hl, ih h⟩

/-- The tokens that show the lexemes, without those that follow. -/
theorem Shows.exists_front {ls : List Lexeme} {ahead rest : List Token} (h : Shows ls ahead rest) :
    ∃ front, ahead = front ++ rest ∧ Shows ls front [] := by
  induction ls generalizing ahead with
  | nil => exact ⟨[], h, rfl⟩
  | cons l ls ih =>
    obtain ⟨t, ahead', rfl, hl, h⟩ := h
    obtain ⟨front, rfl, hs⟩ := ih h
    exact ⟨t :: front, rfl, t, front, rfl, hl, hs⟩

theorem Place.right_right (n m : Nat) (p : Place) : (p.right n).right m = p.right (n + m) := by
  simp only [right, Nat.add_assoc]

namespace Scanner

/-! ### Reaching a place -/

/-- Reading from `s` comes to `s'` after at most as many tokens as there are characters between. -/
def Reaches (s s' : Scanner) : Prop :=
  ∃ k, s'.rest.length + k ≤ s.rest.length ∧ ∀ n, run (n + 1 + k) s = run (n + 1) s'

theorem Reaches.refl (s : Scanner) : Reaches s s := ⟨0, Nat.le_refl _, fun _ => rfl⟩

theorem Reaches.trans {s s₁ s₂ : Scanner} (h₁ : Reaches s s₁) (h₂ : Reaches s₁ s₂) :
    Reaches s s₂ := by
  obtain ⟨k₁, hl₁, hr₁⟩ := h₁
  obtain ⟨k₂, hl₂, hr₂⟩ := h₂
  refine ⟨k₁ + k₂, by omega, fun n => ?_⟩
  rw [← hr₂ n, show n + 1 + (k₁ + k₂) = n + k₂ + 1 + k₁ by omega, hr₁,
    show n + k₂ + 1 = n + 1 + k₂ by omega]

theorem Reaches.of_gap {s s' : Scanner} (h : s.gap = s'.gap)
    (hlen : s'.rest.length ≤ s.rest.length) : Reaches s s' := by
  refine ⟨0, hlen, fun n => ?_⟩
  show run (n + 1) s = run (n + 1) s'
  rw [run, run, h]

/-- Whether a token starts here: no blank, no line end and no comment. -/
def startsToken : List Char → Bool
  | [] => false
  | c :: cs =>
    !isLineEnd c && !isSpace c && !(c == '/' && (cs.head? == some '/' || cs.head? == some '*'))

theorem skipGap_of_startsToken {p : Place} {newline : Bool} {cs : List Char}
    (h : startsToken cs = true) : skipGap .blanks p newline cs = .ok ⟨p, newline, cs⟩ := by
  unfold skipGap
  split
  case h_4 c cs h₁ h₂ h₃ =>
    simp only [startsToken, Bool.and_eq_true, Bool.not_eq_true'] at h
    simp [h.1.1, h.1.2]
  all_goals simp_all [startsToken, isLineEnd]

theorem gap_of_startsToken {s : Scanner} (h : startsToken s.rest = true) : s.gap = .ok s := by
  rw [gap, skipGap_of_startsToken h]
  rfl

theorem Reaches.of_token {s s' : Scanner} (hstart : startsToken s.rest = true)
    (h : s.token = .ok s') (hlen : s'.rest.length < s.rest.length) : Reaches s s' := by
  refine ⟨1, by omega, fun n => ?_⟩
  have hne : s.rest.isEmpty = false := by
    cases hr : s.rest with
    | nil => simp [hr, startsToken] at hstart
    | cons c cs => rfl
  rw [run, gap_of_startsToken hstart]
  simp only [bind, Except.bind, hne, Bool.false_eq_true, if_false, h]

/-- At the end of the source, reading is done. -/
theorem run_of_rest_eq_nil {s : Scanner} (h : s.rest = []) (n : Nat) : run (n + 1) s = .ok s := by
  have hgap : s.gap = .ok s := by
    rw [gap, h, skipGap]
    show Except.ok { s with rest := [] } = .ok s
    rw [← h]
  rw [run, hgap]
  simp [h, bind, Except.bind, pure, Except.pure]

/-! ### Moving over tokens -/

/-- Reading from `s` comes to `s'`; on the way are the tokens `ls`, and the frames `fs` and the
characters `r` are left. -/
structure Moves (s : Scanner) (ls : List Lexeme) (fs : Frames) (r : List Char) (s' : Scanner) :
    Prop where
  reaches : Reaches s s'
  rest : s'.rest = r
  frames : s'.frames = fs
  tokens : ∃ new, s'.tokens = new.reverse ++ s.tokens ∧ Shows ls new []

theorem Moves.trans {s s₁ s₂ : Scanner} {ls ms : List Lexeme} {fs gs : Frames} {r r' : List Char}
    (h₁ : Moves s ls fs r s₁) (h₂ : Moves s₁ ms gs r' s₂) : Moves s (ls ++ ms) gs r' s₂ where
  reaches := h₁.reaches.trans h₂.reaches
  rest := h₂.rest
  frames := h₂.frames
  tokens := by
    obtain ⟨new₁, ht₁, hs₁⟩ := h₁.tokens
    obtain ⟨new₂, ht₂, hs₂⟩ := h₂.tokens
    exact ⟨new₁ ++ new₂, by simp [ht₁, ht₂], shows_append.mpr ⟨new₂, hs₁.append_right new₂, hs₂⟩⟩

/-- The latest token is the last lexeme. -/
theorem Moves.latest {s s' : Scanner} {ls : List Lexeme} {l : Lexeme} {fs : Frames}
    {r : List Char} (h : Moves s (ls ++ [l]) fs r s') : s'.latest? = some l.kind := by
  obtain ⟨new, ht, hs⟩ := h.tokens
  obtain ⟨middle, hs, t, rest, rfl, ⟨hk, -⟩, rfl⟩ := shows_append.mp hs
  obtain ⟨front, rfl, -⟩ := hs.exists_front
  simp [latest?, ht, hk]

/-- Moving over a gap, which has no tokens. -/
theorem Moves.of_gap {s s' : Scanner} (h : s.gap = s'.gap)
    (hlen : s'.rest.length ≤ s.rest.length) (htokens : s'.tokens = s.tokens) :
    Moves s [] s'.frames s'.rest s' where
  reaches := .of_gap h hlen
  rest := rfl
  frames := rfl
  tokens := ⟨[], htokens, rfl⟩

/-! ### Staying on a line -/

/-- The first lexeme stands on the line of the token before it, unless a line ended since. -/
def onLine (newline : Bool) (ls : List Lexeme) : List Lexeme :=
  if newline then onNewLine ls else onSameLine ls

/-- Reading from `s` comes to `s'` on the same line, as far as a reader of tokens can tell. -/
structure Scans (s : Scanner) (ls : List Lexeme) (fs : Frames) (r : List Char) (s' : Scanner) :
    Prop where
  moves : Moves s (onLine s.newline ls) fs r s'
  newline : s'.newline = (s.newline && ls.isEmpty)

theorem Moves.of_onLine {s s' : Scanner} {ls : List Lexeme} {fs : Frames} {r : List Char}
    {newline : Bool} (h : Moves s (onLine newline ls) fs r s') : Moves s ls fs r s' where
  reaches := h.reaches
  rest := h.rest
  frames := h.frames
  tokens := by
    obtain ⟨new, ht, hs⟩ := h.tokens
    refine ⟨new, ht, ?_⟩
    cases newline
    · exact hs.of_onSameLine
    · exact hs.of_onNewLine

theorem onLine_append (newline : Bool) {ls : List Lexeme} (h : ls ≠ []) (ms : List Lexeme) :
    onLine newline (ls ++ ms) = onLine newline ls ++ ms := by
  cases ls with
  | nil => exact absurd rfl h
  | cons l ls => cases newline <;> rfl

namespace Scans

variable {s s₁ s₂ : Scanner} {l : Lexeme} {ls ms : List Lexeme} {fs gs : Frames} {r r' : List Char}

theorem rest (h : Scans s ls fs r s₁) : s₁.rest = r := h.moves.rest

theorem frames (h : Scans s ls fs r s₁) : s₁.frames = fs := h.moves.frames

theorem refl (s : Scanner) : Scans s [] s.frames s.rest s where
  moves := ⟨.refl s, rfl, rfl, [], rfl, by cases s.newline <;> rfl⟩
  newline := by simp

theorem start (hr : s.rest = r) (hf : s.frames = fs) : Scans s [] fs r s := hr ▸ hf ▸ refl s

/-- Behind the first token it does not matter on which lines the others stand. -/
theorem append (h₁ : Scans s ls fs r s₁) (hne : ls ≠ []) (h₂ : Moves s₁ ms gs r' s₂)
    (hnewline : s₂.newline = false) : Scans s (ls ++ ms) gs r' s₂ where
  moves := onLine_append _ hne _ ▸ h₁.moves.trans h₂
  newline := by simp [hnewline, hne]

theorem trans (h₁ : Scans s ls fs r s₁) (h₂ : Scans s₁ ms gs r' s₂) :
    Scans s (ls ++ ms) gs r' s₂ := by
  cases ls with
  | nil =>
    have hnewline : s₁.newline = s.newline := by simpa using h₁.newline
    have hmoves := h₁.moves.of_onLine.trans h₂.moves
    have hline := h₂.newline
    rw [hnewline] at hmoves hline
    exact ⟨hmoves, hline⟩
  | cons l ls =>
    have hnewline : s₁.newline = false := by simpa using h₁.newline
    exact append h₁ (List.cons_ne_nil _ _) h₂.moves.of_onLine (by simp [h₂.newline, hnewline])

/-- Behind a token the line goes on. -/
theorem newline_eq_false (h : Scans s ls fs r s₁) (hne : ls ≠ []) : s₁.newline = false := by
  rw [h.newline, List.isEmpty_eq_false_iff.mpr hne, Bool.and_false]

theorem latest (h : Scans s (ls ++ [l]) fs r s₁) : s₁.latest? = some l.kind :=
  h.moves.of_onLine.latest

/-- On the same line, the first lexeme stands there. -/
theorem moves_onSameLine (h : Scans s ls fs r s₁) (hnewline : s.newline = false) :
    Moves s (onSameLine ls) fs r s₁ := by
  have := h.moves
  rwa [hnewline] at this

/-- A token that is put in front of the others, and may open or close a frame. -/
theorem emit {text : List Char} {stop : Place} {closed : Bool} (h : Scans s ls fs text s₁)
    (hstart : startsToken text = true) (hlen : r.length < text.length)
    (hsame : l.sameLine = true → s₁.newline = false) (hnew : l.newLine = false)
    (htoken : s₁.token = .ok { s₁.emit l.kind stop r with frames := gs, objectClosed := closed }) :
    Scans s (ls ++ [l]) gs r { s₁.emit l.kind stop r with frames := gs, objectClosed := closed } := by
  rw [← h.rest] at hstart hlen
  refine h.trans ⟨⟨.of_token hstart htoken hlen, rfl, rfl, [_], rfl, ?_⟩, by simp [Scanner.emit]⟩
  cases hn : s₁.newline with
  | true =>
    refine ⟨_, [], rfl, ⟨rfl, fun hl => ?_, fun _ => rfl⟩, rfl⟩
    rw [hsame hl] at hn
    cases hn
  | false =>
    refine ⟨_, [], rfl, ⟨rfl, fun _ => rfl, fun hl => ?_⟩, rfl⟩
    rw [show l.newLine = true from hl] at hnew
    cases hnew

end Scans

/-! ### Blanks -/

/-- The reader behind spaces. -/
def afterSpaces (s : Scanner) (n : Nat) (r : List Char) : Scanner :=
  { s with place := s.place.right n, rest := r }

/-- The reader behind a line end. -/
def afterLine (s : Scanner) (r : List Char) : Scanner :=
  { s with place := s.place.nextLine 1, rest := r, newline := true }

theorem skipGap_spaces (n : Nat) (p : Place) (newline : Bool) (r : List Char) :
    skipGap .blanks p newline (List.replicate n ' ' ++ r) =
      skipGap .blanks (p.right n) newline r := by
  induction n generalizing p with
  | zero => rfl
  | succ n ih =>
    rw [List.replicate_succ, List.cons_append, skipGap]
    · show skipGap .blanks (p.right 1) newline _ = _
      rw [ih, Place.right_right, Nat.add_comm]
    all_goals nofun

theorem gap_line {s : Scanner} {r : List Char} (h : s.rest = '\n' :: r) :
    s.gap = (s.afterLine r).gap := by
  rw [gap, gap, h, skipGap]
  · rfl
  all_goals nofun

namespace Scans

variable {s s₁ s₂ : Scanner} {ls ms : List Lexeme} {fs gs : Frames} {r r' : List Char}

theorem spaces {n : Nat} (h : Scans s ls fs (List.replicate n ' ' ++ r) s₁) :
    Scans s ls fs r (s₁.afterSpaces n r) := by
  have hgap : s₁.gap = (s₁.afterSpaces n r).gap := by
    rw [gap, gap, h.rest, skipGap_spaces]
    rfl
  have hmoves := Moves.of_gap hgap (by simp [afterSpaces, h.rest]) rfl
  have hscans : Scans s₁ [] s₁.frames r (s₁.afterSpaces n r) :=
    ⟨by cases s₁.newline <;> exact hmoves, by simp [afterSpaces]⟩
  simpa [h.frames] using h.trans hscans

theorem space (h : Scans s ls fs (' ' :: r) s₁) : Scans s ls fs r (s₁.afterSpaces 1 r) :=
  h.spaces (n := 1)

theorem afterLine (h : Scans s ls fs ('\n' :: r) s₁) :
    Scans (s₁.afterLine r) [] fs r (s₁.afterLine r) :=
  start rfl h.frames

theorem moves_line (h : Scans s ls fs ('\n' :: r) s₁) : Moves s₁ [] fs r (s₁.afterLine r) := by
  have hmoves := Moves.of_gap (gap_line h.rest) (by simp [Scanner.afterLine, h.rest]) rfl
  rwa [h.afterLine.frames] at hmoves

/-- What follows on the next line. -/
theorem line (h₁ : Scans s ls fs ('\n' :: r) s₁) (hls : ls ≠ [])
    (h₂ : Scans (s₁.afterLine r) ms gs r' s₂) (hms : ms ≠ []) : Scans s (ls ++ ms) gs r' s₂ :=
  h₁.append hls (h₁.moves_line.trans h₂.moves.of_onLine) (h₂.newline_eq_false hms)

end Scans

end Scanner

end MarkupScript
