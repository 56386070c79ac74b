import MarkupScript.Proofs.Token.Matched

/-!
# Frames token by token

A token opens a frame, closes the innermost one, turns the tag just opened into one that closes an
element, or leaves the frames alone, and its kind tells which. All frames further out stay as they
are. So a frame can be followed from the token that opens it to the token that closes it.
-/

namespace MarkupScript

theorem Kind.isPlain_ofWord (text : String) : (Kind.ofWord text).isPlain = true := by
  have hne := (Kind.ofWord_ne text).1
  unfold isPlain
  split
  · next m hm => exact absurd hm (hne m)
  · rfl

/-- What becomes of the frames where a token is read. -/
inductive FrameMove : Frames → Kind → Frames → Prop
  | stays {k : Kind} (fs : Frames) : k.isPlain = true → FrameMove fs k fs
  | turns {k : Kind} (fs : Frames) : k.isPlain = true →
      FrameMove (.openTag :: fs) k (.closeTag :: fs)
  | opens (f : Frame) (fs : Frames) : FrameMove fs (.symbol f.opener) (f :: fs)
  | closes {m : Symbol} (f : Frame) (fs : Frames) : m.opener? = some f.opener →
      FrameMove (f :: fs) (.symbol m) fs

namespace Scanner

/-! ### One token -/

/-- The latest token moved the frames as its kind says. -/
def Moved (s s' : Scanner) : Prop := ∃ k, s'.latest? = some k ∧ FrameMove s.frames k s'.frames

variable {s s' : Scanner}

theorem string_moved {quote : Char} (h : s.string quote = .ok s') : s.Moved s' := by
  obtain ⟨_, -, h⟩ := Except.bind_eq_ok.mp h
  dsimp only at h
  split at h
  · split at h
    · cases h
      exact ⟨_, rfl, .stays _ rfl⟩
    · cases h
  · cases h

theorem number_moved (h : s.number = .ok s') : s.Moved s' := by
  unfold number at h
  dsimp only at h
  split at h
  · cases h
    exact ⟨_, rfl, .stays _ rfl⟩
  · cases h

theorem opening_moved {m : Symbol} {f : Frame} (hf : f.opener = m) : s.Moved (s.opening m f) := by
  subst hf
  exact ⟨_, rfl, .opens f s.frames⟩

/-- A closing mark takes away the frame that its own opening mark has put there. -/
theorem closing_moved {m : Symbol} {c : Char} (h : s.closing m c = .ok s')
    (hm : ∀ f : Frame, f.closer = c → m.opener? = some f.opener) : s.Moved s' := by
  unfold closing at h
  split at h
  · cases h
  · next f fs hpop =>
    obtain ⟨hframes, hc⟩ := Frames.eq_cons_of_pop? hpop
    cases h
    refine ⟨.symbol m, by split <;> rfl, ?_⟩
    have hmove : FrameMove s.frames (.symbol m) fs := hframes ▸ .closes f fs (hm f hc)
    split <;> exact hmove

theorem operator_moved {c : Char} (h : s.operator c = .ok s') : s.Moved s' := by
  unfold operator at h
  split at h
  · cases h
  · next m hm =>
    obtain ⟨hopens, hopener, -⟩ := operators_plain m (List.mem_of_find?_eq_some hm)
    have hplain : (Kind.symbol m).isPlain = true := by simp [Kind.isPlain, hopens, hopener]
    cases h
    refine ⟨.symbol m, by split <;> rfl, ?_⟩
    split
    · -- only a tag just opened is turned
      show FrameMove s.frames (.symbol m) (s.frames.closeTag?.getD s.frames)
      unfold Frames.closeTag?
      split
      · next fs hfs => exact hfs ▸ .turns fs hplain
      · exact .stays _ hplain
    · exact .stays _ hplain

theorem script_moved {c : Char} (h : s.script c = .ok s') : s.Moved s' := by
  unfold script at h
  split at h
  · exact string_moved h
  split at h
  · exact number_moved h
  split at h
  · cases h
    exact ⟨_, rfl, .stays _ (Kind.isPlain_ofWord _)⟩
  split at h
  · cases h
    exact opening_moved rfl
  · cases h
    exact opening_moved rfl
  · cases h
    exact opening_moved s.opener_braceFrame
  · exact closing_moved h (by intro f; cases f <;> decide)
  · exact closing_moved h (by intro f; cases f <;> decide)
  · exact closing_moved h (by intro f; cases f <;> decide)
  · exact operator_moved h

theorem tagEnd_moved (ht : s.frames.current.isTag = true) :
    s.Moved ((s.take (.symbol .tagEnd) 1).withFrames (s.frames.drop 1)) := by
  obtain ⟨f, fs, hframes, hf⟩ := Frames.exists_tag_of_current ht
  refine ⟨.symbol .tagEnd, rfl, ?_⟩
  show FrameMove s.frames (.symbol .tagEnd) (s.frames.drop 1)
  rw [hframes]
  exact .closes f fs (by rw [hf]; rfl)

theorem token_moved (hr : s.rest ≠ []) (h : s.token = .ok s') : s.Moved s' := by
  unfold token at h
  split at h
  · contradiction
  split at h
  · next ht =>
    split at h
    · cases h
      exact ⟨_, rfl, .stays _ rfl⟩
    split at h
    · cases h
      exact tagEnd_moved ht
    · exact script_moved h
  · split at h
    · cases h
      exact opening_moved rfl
    split at h
    · cases h
      exact ⟨_, rfl, .stays _ rfl⟩
    · exact script_moved h

/-- A token that is read behind a gap moves the frames as its kind says. -/
theorem Reads.moves {s₁ s₂ : Scanner} {k : Kind} {text : List Char} (hreads : s₁.Reads k text s₂)
    (hgap : s.gap = .ok s₁) (htoken : s₁.token = .ok s₂) : FrameMove s.frames k s₂.frames := by
  have hne : s₁.rest ≠ [] := by
    rw [hreads.rest]
    exact List.append_ne_nil_of_left_ne_nil hreads.nonempty _
  obtain ⟨k', hlatest, hmove⟩ := token_moved hne htoken
  obtain ⟨_, -, -, -, -, hframes⟩ := gap_eq_ok hgap
  rw [latest?, hreads.tokens] at hlatest
  cases hlatest
  exact hframes ▸ hmove

theorem Reads.ne_endOfInput {k : Kind} {text : List Char} (h : s.Reads k text s') :
    k ≠ .endOfInput := by
  rintro rfl
  have hnil : text = [] := by
    cases h.spells
    rfl
  exact h.nonempty hnil

/-! ### Several tokens -/

theorem Trace.append {m : Scanner} {ts us : List Token} (h : Trace s ts m) (h' : Trace m us s') :
    Trace s (ts ++ us) s' := by
  induction h with
  | nil => exact h'
  | cons hgap htoken hreads _ ih => exact .cons hgap htoken hreads (ih h')

end Scanner

/-- The frames that are open behind the first `n` tokens of a source. -/
def framesBehind? (source : String) (n : Nat) : Option Frames :=
  (Scanner.run n (.start source.toList)).toOption.map (·.frames)

theorem Scanner.Trace.frames_behind {source : String} {ts : List Token} {s : Scanner}
    (h : Trace (.start source.toList) ts s) : framesBehind? source ts.length = some s.frames := by
  rw [framesBehind?, h.run_eq]
  rfl

/-- From behind `i` tokens to behind `j` tokens the frames `fs` are open, with or without others
inside them. -/
def OpenThrough (source : String) (fs : Frames) (i j : Nat) : Prop :=
  ∀ n, i ≤ n → n ≤ j → ∃ inner, framesBehind? source n = some (inner ++ fs)

/-- A frame `f` inside `fs` that is open behind `i` tokens is closed by token `j`: it stays open up
to that token, is the innermost one there, and behind the token it is gone. -/
structure ClosedBy (source : String) (f : Frame) (fs : Frames) (i j : Nat) : Prop where
  le : i ≤ j
  stays : OpenThrough source (f :: fs) i j
  innermost : framesBehind? source j = some (f :: fs)
  gone : framesBehind? source (j + 1) = some fs

section

variable {source : String} {f : Frame} {fs inner : Frames} {i j k : Nat}

theorem OpenThrough.single (h : framesBehind? source i = some (inner ++ fs)) :
    OpenThrough source fs i i := by
  intro n hle hge
  obtain rfl := Nat.le_antisymm hge hle
  exact ⟨inner, h⟩

theorem OpenThrough.cons (h : framesBehind? source i = some (inner ++ fs))
    (hopen : OpenThrough source fs (i + 1) j) : OpenThrough source fs i j := by
  intro n hle hge
  rcases Nat.eq_or_lt_of_le hle with rfl | hlt
  · exact ⟨inner, h⟩
  · exact hopen n hlt hge

theorem ClosedBy.cons (h : framesBehind? source i = some (inner ++ f :: fs))
    (hclosed : ClosedBy source f fs (i + 1) j) : ClosedBy source f fs i j where
  le := Nat.le_of_succ_le hclosed.le
  stays := hclosed.stays.cons h
  innermost := hclosed.innermost
  gone := hclosed.gone

/-- A frame is not closed while it is open. -/
theorem OpenThrough.le_of_closedBy (h : OpenThrough source (f :: fs) i k)
    (hclosed : ClosedBy source f fs i j) : k ≤ j := by
  refine Nat.le_of_not_lt fun hlt => ?_
  obtain ⟨inner, hinner⟩ := h (j + 1) (Nat.le_succ_of_le hclosed.le) hlt
  rw [hclosed.gone] at hinner
  have hlength := congrArg List.length (Option.some.inj hinner)
  simp only [List.length_append, List.length_cons] at hlength
  omega

/-- At most one token closes a frame. -/
theorem ClosedBy.unique (h : ClosedBy source f fs i j) (h' : ClosedBy source f fs i k) : j = k :=
  Nat.le_antisymm (h.stays.le_of_closedBy h') (h'.stays.le_of_closedBy h)

end

end MarkupScript
