import MarkupScript.Proofs.Token.Marks

/-!
# Reading words

A word runs as far as its characters go: that of the script as far as identifiers do, and the name
of a tag or attribute as far as names do. It is read as itself if the next character does not belong
to it.
-/

namespace MarkupScript

theorem Kind.ofWord_spelling (k : Keyword) : ofWord k.spelling = .keyword k := by
  cases k <;> decide

theorem takeWhile_append_of_all {p : Char → Bool} {cs r : List Char} (h : cs.all p = true)
    (hr : ∀ c ∈ r.head?, p c = false) : (cs ++ r).takeWhile p = cs := by
  rw [List.takeWhile_append_of_pos (List.all_eq_true.mp h)]
  cases r with
  | nil => simp
  | cons c r => simp [hr c rfl]

/-- A word of the script starts with a character of its own. -/
theorem exists_cons_of_isIdentifierText {x : String} (h : isIdentifierText x = true) :
    ∃ c cs, x.toList = c :: cs ∧ isIdentifierStart c = true ∧ (c :: cs).all isIdentifierPart := by
  unfold isIdentifierText at h
  cases hx : x.toList with
  | nil => simp [hx] at h
  | cons c cs =>
    simp only [hx, Bool.and_eq_true] at h
    exact ⟨c, cs, rfl, h.1, by simp [isIdentifierPart_of_isIdentifierStart h.1, h.2]⟩

/-- The name of a tag or attribute starts with a character of its own. -/
theorem exists_cons_of_isTagName {x : String} (h : isTagName x = true) :
    ∃ c cs, x.toList = c :: cs ∧ isNameStart c = true ∧ cs.all isNamePart = true := by
  unfold isTagName at h
  cases hx : x.toList with
  | nil => simp [hx] at h
  | cons c cs =>
    simp only [hx, Bool.and_eq_true] at h
    exact ⟨c, cs, rfl, h.1, h.2⟩

namespace Scanner

/-- A character that starts an identifier starts no gap. -/
theorem startsToken_of_isIdentifierStart {c : Char} (h : isIdentifierStart c = true)
    (r : List Char) : startsToken (c :: r) = true := by
  have hgap : isLineEnd c = false ∧ isSpace c = false := by
    constructor <;> rw [Bool.eq_false_iff] <;> intro hc
    · exact absurd h (by simp [isIdentifierStart_of_gap (.inl hc)])
    · exact absurd h (by simp [isIdentifierStart_of_gap (.inr hc)])
  have hslash : c ≠ '/' := by
    rintro rfl
    exact absurd h (by decide +kernel)
  simp [startsToken, hgap.1, hgap.2, hslash]

theorem startsToken_of_isNameStart {c : Char} (h : isNameStart c = true) (r : List Char) :
    startsToken (c :: r) = true := by
  simp only [isNameStart, Bool.or_eq_true, beq_iff_eq] at h
  rcases h with ((h | rfl) | rfl) | rfl
  · exact startsToken_of_isIdentifierStart (by simp [isIdentifierStart, Text.isAlphabetic, h]) r
  · rfl
  · rfl
  · rfl

theorem script_eq_word {s : Scanner} {c : Char} (h : isIdentifierStart c = true) :
    s.script c = .ok s.word := by
  have hdigit : c.isDigit = false := by
    rw [Bool.eq_false_iff]
    intro hd
    exact absurd h (by simp [isIdentifierStart_of_isDigit hd])
  have hquote : c ≠ '"' ∧ c ≠ '\'' ∧ c ≠ '.' := by
    refine ⟨?_, ?_, ?_⟩ <;> rintro rfl <;> exact absurd h (by decide +kernel)
  unfold script
  simp [hquote.1, hquote.2.1, hquote.2.2, hdigit, h]

namespace Scans

variable {s s₁ : Scanner} {ls : List Lexeme} {fs : Frames} {r : List Char}

theorem word {x : String} (h : Scans s ls fs (x.toList ++ r) s₁) (hx : isIdentifierText x = true)
    (hr : ∀ c ∈ r.head?, isIdentifierPart c = false) (hfs : fs.current.isTag = false) :
    ∃ s₂, Scans s (ls ++ [.word x]) fs r s₂ ∧ s₂.tokens.tail = s₁.tokens := by
  obtain ⟨c, cs, hxs, hc, hcs⟩ := exists_cons_of_isIdentifierText hx
  have hrest : x.toList ++ r = c :: (cs ++ r) := by rw [hxs, List.cons_append]
  have hne : c ≠ '<' ∧ c ≠ '@' := by
    constructor <;> rintro rfl <;> exact absurd hc (by decide +kernel)
  have htext : s₁.rest.takeWhile isIdentifierPart = x.toList := by
    rw [h.rest]
    exact takeWhile_append_of_all (hxs ▸ hcs) hr
  have htoken : s₁.token = .ok { s₁.emit (.ofWord x) (s₁.place.right x.toList.length) r with
      frames := fs, objectClosed := s₁.objectClosed } := by
    have hcons : Scans s ls fs (c :: (cs ++ r)) s₁ := hrest ▸ h
    rw [hcons.token_of_not_isTag hfs hne, script_eq_word hc, Scanner.word, htext, take,
      h.rest, List.drop_left, String.ofList_toList, ← h.frames]
    rfl
  refine ⟨_, h.emit (l := .word x) ?_ ?_ (by rintro ⟨⟩) rfl htoken, rfl⟩
  · rw [hrest]
    exact startsToken_of_isIdentifierStart hc _
  · rw [hrest]
    simp only [List.length_append, List.length_cons]
    omega

theorem keyword (k : Keyword) (h : Scans s ls fs (k.spelling.toList ++ r) s₁)
    (hr : ∀ c ∈ r.head?, isIdentifierPart c = false) (hfs : fs.current.isTag = false) :
    ∃ s₂, Scans s (ls ++ [.keyword k]) fs r s₂ := by
  have hword : isIdentifierText k.spelling = true := by cases k <;> decide +kernel
  have hlexeme : Lexeme.word k.spelling = .keyword k := by rw [Lexeme.word, Kind.ofWord_spelling]; rfl
  obtain ⟨s₂, h₂, -⟩ := h.word hword hr hfs
  exact ⟨s₂, hlexeme ▸ h₂⟩

/-- The name of a tag or attribute. -/
theorem name {x : String} (h : Scans s ls fs (x.toList ++ r) s₁) (hx : isTagName x = true)
    (hr : ∀ c ∈ r.head?, isNamePart c = false) (hfs : fs.current.isTag = true) :
    ∃ s₂, Scans s (ls ++ [.name x]) fs r s₂ := by
  obtain ⟨c, cs, hxs, hc, hcs⟩ := exists_cons_of_isTagName hx
  have hrest : x.toList ++ r = c :: (cs ++ r) := by rw [hxs, List.cons_append]
  have htoken : s₁.token = .ok { s₁.emit (.name x) (s₁.place.right x.toList.length) r with
      frames := fs, objectClosed := s₁.objectClosed } := by
    rw [token, h.rest, hrest]
    simp only [h.frames, hfs, hc, if_true]
    rw [takeWhile_append_of_all hcs hr, ← hxs, take, h.rest, List.drop_left, String.ofList_toList,
      ← h.frames]
    rfl
  refine ⟨_, h.emit (l := .name x) ?_ ?_ (by rintro ⟨⟩) rfl htoken⟩
  · rw [hrest]
    exact startsToken_of_isNameStart hc _
  · rw [hrest]
    simp only [List.length_append, List.length_cons]
    omega

end Scans

end Scanner

end MarkupScript
