import MarkupScript.Token.Gap

/-!
# What gaps are made of

A gap is a sequence of blanks and comments. What the reader moves over between two tokens is a gap,
and the place it notes is as far along as the gap is long.
-/

namespace MarkupScript

/-- Blanks and comments, in front of the rest of a source. A line comment runs to the end of its
line or of the source, and a closed comment to the first mark that closes it. -/
inductive IsGap (rest : List Char) : List Char → Prop
  | nil : IsGap rest []
  | blank {c : Char} {gap : List Char} : Text.isBlank c = true ∨ c = '\ufeff' → IsGap rest gap →
      IsGap rest (c :: gap)
  | lineComment {text gap : List Char} : (∀ c ∈ text, c ≠ '\n' ∧ c ≠ '\r') →
      (∀ c ∈ (gap ++ rest).head?, c = '\n' ∨ c = '\r') → IsGap rest gap →
      IsGap rest ('/' :: '/' :: (text ++ gap))
  | closedComment {text gap : List Char} : ¬ ['*', '/'] <:+: text → IsGap rest gap →
      IsGap rest ('/' :: '*' :: (text ++ '*' :: '/' :: gap))

/-- A line comment behind its mark, and what follows it. -/
def EndsLine (rest cs : List Char) : Prop :=
  ∃ text gap, cs = text ++ gap ∧ (∀ c ∈ text, c ≠ '\n' ∧ c ≠ '\r') ∧
    (∀ c ∈ (gap ++ rest).head?, c = '\n' ∨ c = '\r') ∧ IsGap rest gap

/-- A closed comment behind its mark, and what follows it. -/
def Closes (rest cs : List Char) : Prop :=
  ∃ text gap, cs = text ++ '*' :: '/' :: gap ∧ ¬ ['*', '/'] <:+: text ∧ IsGap rest gap

/-- What is left of a gap within one of its parts. -/
def GapPart.Leaves (rest : List Char) : GapPart → List Char → Prop
  | .blanks => IsGap rest
  | .lineComment => EndsLine rest
  | .closedComment _ => Closes rest

theorem isBlank_of_isLineEnd {c : Char} (h : isLineEnd c = true) : Text.isBlank c = true := by
  simp only [isLineEnd, Bool.or_eq_true, beq_iff_eq] at h
  rcases h with ((rfl | rfl) | rfl) | rfl <;> decide

section

variable {rest cs : List Char} {c : Char}

theorem EndsLine.isGap (h : EndsLine rest cs) : IsGap rest ('/' :: '/' :: cs) := by
  obtain ⟨text, gap, rfl, htext, hend, hgap⟩ := h
  exact .lineComment htext hend hgap

theorem EndsLine.cons (hc : ¬ (c = '\n' ∨ c = '\r')) (h : EndsLine rest cs) :
    EndsLine rest (c :: cs) := by
  obtain ⟨text, gap, rfl, htext, hend, hgap⟩ := h
  refine ⟨c :: text, gap, rfl, ?_, hend, hgap⟩
  rintro d (_ | ⟨_, hd⟩)
  · exact not_or.mp hc
  · exact htext d hd

theorem EndsLine.of_lineEnd (hc : c = '\n' ∨ c = '\r') (h : IsGap rest (c :: cs)) :
    EndsLine rest (c :: cs) :=
  ⟨[], c :: cs, rfl, nofun, by rintro d ⟨⟩; exact hc, h⟩

theorem Closes.isGap (h : Closes rest cs) : IsGap rest ('/' :: '*' :: cs) := by
  obtain ⟨text, gap, rfl, htext, hgap⟩ := h
  exact .closedComment htext hgap

/-- A closed comment goes on with a character that does not begin the mark that closes it. -/
theorem Closes.cons (hc : ∀ ds, c = '*' → cs ≠ '/' :: ds) (h : Closes rest cs) :
    Closes rest (c :: cs) := by
  obtain ⟨text, gap, rfl, htext, hgap⟩ := h
  refine ⟨c :: text, gap, rfl, fun hin => ?_, hgap⟩
  rcases List.infix_cons_iff.mp hin with hstart | hin
  · obtain ⟨ds, hds⟩ := hstart
    simp only [List.cons_append, List.nil_append, List.cons.injEq] at hds
    obtain ⟨rfl, rfl⟩ := hds
    exact hc _ rfl rfl
  · exact htext hin

end

/-- From the place `p` and within a part of a gap, the rest of the gap leads to `cursor`. -/
def GapPart.Leads (part : GapPart) (p : Place) (source : List Char) (cursor : Cursor) : Prop :=
  ∃ gap, source = gap ++ cursor.rest ∧ cursor.place.offset = p.offset + gap.length ∧
    part.Leaves cursor.rest gap

theorem GapPart.Leads.behind {part part' : GapPart} {p p' : Place} {cs : List Char}
    {cursor : Cursor} (h : part'.Leads p' cs cursor) (front : List Char)
    (hp : p'.offset = p.offset + front.length)
    (hpart : ∀ gap, cs = gap ++ cursor.rest → part'.Leaves cursor.rest gap →
      part.Leaves cursor.rest (front ++ gap)) : part.Leads p (front ++ cs) cursor := by
  obtain ⟨gap, rfl, hoffset, hgap⟩ := h
  refine ⟨front ++ gap, by simp, ?_, hpart gap rfl hgap⟩
  rw [hoffset, hp, List.length_append]
  omega

/-- What the reader moves over is a gap, and the place it comes to is as far along. -/
theorem skipGap_leads {part : GapPart} {p : Place} {newline : Bool} {source : List Char}
    {cursor : Cursor} (h : skipGap part p newline source = .ok cursor) :
    part.Leads p source cursor := by
  fun_induction skipGap part p newline source with
  | case1 p newline cs ih =>
    exact (ih h).behind ['\r', '\n'] rfl fun gap _ hgap =>
      .blank (.inl (by decide)) (.blank (.inl (by decide)) hgap)
  | case2 p newline cs ih => exact (ih h).behind ['/', '/'] rfl fun gap _ hgap => hgap.isGap
  | case3 p newline cs ih => exact (ih h).behind ['/', '*'] rfl fun gap _ hgap => hgap.isGap
  | case4 p newline c cs _ _ _ hc ih =>
    exact (ih h).behind [c] rfl fun gap _ hgap =>
      .blank (.inl (isBlank_of_isLineEnd hc)) hgap
  | case5 p newline c cs _ _ _ _ hc ih =>
    refine (ih h).behind [c] rfl fun gap _ hgap => .blank ?_ hgap
    simpa [isSpace] using hc
  | case6 =>
    cases h
    exact ⟨[], rfl, rfl, .nil⟩
  | case7 =>
    cases h
    exact ⟨[], rfl, rfl, .nil⟩
  | case8 p newline cs ih =>
    exact (ih h).behind ['\r', '\n'] rfl fun gap _ hgap =>
      .of_lineEnd (.inr rfl) (.blank (.inl (by decide)) (.blank (.inl (by decide)) hgap))
  | case9 p newline c cs _ hc ih =>
    refine (ih h).behind [c] rfl fun gap _ hgap => .of_lineEnd hc (.blank (.inl ?_) hgap)
    rcases hc with rfl | rfl <;> decide
  | case10 p newline c cs _ hc ih =>
    exact (ih h).behind [c] rfl fun gap _ hgap => .cons hc hgap
  | case11 =>
    cases h
    exact ⟨[], rfl, rfl, [], [], rfl, nofun, nofun, .nil⟩
  | case12 p newline opened cs ih =>
    exact (ih h).behind ['*', '/'] rfl fun gap _ hgap =>
      ⟨[], gap, rfl, by decide, hgap⟩
  | case13 p newline opened cs hc ih =>
    refine (ih h).behind ['\n'] rfl fun gap _ hgap => .cons nofun hgap
  | case14 p newline opened c cs hclose hc ih =>
    refine (ih h).behind [c] rfl fun gap hcs hgap => .cons (fun ds h => ?_) hgap
    rintro rfl
    exact hclose _ h hcs
  | case15 => cases h

end MarkupScript
