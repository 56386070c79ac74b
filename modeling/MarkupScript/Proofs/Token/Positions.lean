import Mathlib.Data.List.TakeWhile
import MarkupScript.Proofs.Token.Lossless

/-!
# Lines and columns

A place notes a line and a column beside its offset. Both can be told from the source: the line is
one more than the number of line feeds in front of the place, and the column is one more than the
number of characters behind the last of them. `Stands source p rest` says that `p` is the place in
the source in front of `rest`, with the line and the column that it should have. Every step of the
reader keeps this, and the places of errors are such places.

This is so for the sources whose lines end with a line feed, with or without a carriage return in
front. Any other character that ends a line counts as one of the line in some surroundings and as
its end in others.
-/

namespace MarkupScript

/-! ### Places in a source -/

/-- The line behind some characters: one more than the number of line feeds among them. -/
def lineBehind (front : List Char) : Nat := 1 + front.count '\n'

/-- The column behind some characters: one more than the number of those behind the last line feed,
or of all if there is none. -/
def columnBehind (front : List Char) : Nat := 1 + (front.reverse.takeWhile (· ≠ '\n')).length

/-- In a source, the place in front of `rest` is `p`. -/
def Stands (source : List Char) (p : Place) (rest : List Char) : Prop :=
  ∃ front, source = front ++ rest ∧ p = ⟨front.length, lineBehind front, columnBehind front⟩

/-- A place of a source. -/
def Within (source : List Char) (p : Place) : Prop := ∃ rest, Stands source p rest

namespace Stands

variable {source rest : List Char} {p : Place}

theorem start (source : List Char) : Stands source .start source := ⟨[], rfl, rfl⟩

theorem within (h : Stands source p rest) : Within source p := ⟨rest, h⟩

/-- Characters that end no line lead to the right. -/
theorem right {text : List Char} (h : Stands source p (text ++ rest)) (htext : '\n' ∉ text) :
    Stands source (p.right text.length) rest := by
  obtain ⟨front, rfl, rfl⟩ := h
  have hall : ∀ c ∈ text.reverse, decide (c ≠ '\n') = true := by
    intro c hc
    rw [decide_eq_true_eq]
    rintro rfl
    exact htext (List.mem_reverse.mp hc)
  refine ⟨front ++ text, by rw [List.append_assoc], ?_⟩
  have hline : lineBehind (front ++ text) = lineBehind front := by
    simp [lineBehind, List.count_eq_zero.mpr htext]
  have hcolumn : columnBehind (front ++ text) = columnBehind front + text.length := by
    rw [columnBehind, List.reverse_append, List.takeWhile_append_of_pos hall, List.length_append,
      List.length_reverse, columnBehind]
    omega
  rw [Place.right, hline, hcolumn, List.length_append]

/-- A line feed leads to the next line. -/
theorem nextLine (h : Stands source p ('\n' :: rest)) : Stands source (p.nextLine 1) rest := by
  obtain ⟨front, rfl, rfl⟩ := h
  refine ⟨front ++ ['\n'], by simp, ?_⟩
  simp [Place.nextLine, lineBehind, columnBehind, Nat.add_assoc]

theorem right_one {c : Char} (h : Stands source p (c :: rest)) (hc : c ≠ '\n') :
    Stands source (p.right 1) rest := by
  have h : Stands source p ([c] ++ rest) := h
  exact h.right (by simpa using hc.symm)

/-- Two characters that end no line. -/
theorem right_two {c d : Char} (h : Stands source p (c :: d :: rest)) (hc : c ≠ '\n')
    (hd : d ≠ '\n') : Stands source (p.right 2) rest := by
  have h : Stands source p ([c, d] ++ rest) := h
  exact h.right (by simp [hc.symm, hd.symm])

/-- A place has the line and the column of its offset. -/
theorem eq_behind_take (h : Stands source p rest) : p.offset ≤ source.length ∧
    p.line = lineBehind (source.take p.offset) ∧
    p.column = columnBehind (source.take p.offset) := by
  obtain ⟨front, rfl, rfl⟩ := h
  simp

end Stands

/-! ### Lines that end with a line feed -/

/-- Every carriage return stands right in front of a line feed, and no other character but a line
feed ends a line. -/
def PlainLines (cs : List Char) : Prop :=
  (∀ i < cs.length, cs[i]? = some '\r' → cs[i + 1]? = some '\n') ∧
    '\u2028' ∉ cs ∧ '\u2029' ∉ cs

instance (cs : List Char) : Decidable (PlainLines cs) := inferInstanceAs (Decidable (_ ∧ _ ∧ _))

namespace PlainLines

variable {c : Char} {cs : List Char}

theorem tail (h : PlainLines (c :: cs)) : PlainLines cs := by
  obtain ⟨hreturn, hline, hparagraph⟩ := h
  refine ⟨fun i hi hc => ?_, fun hc => hline (.tail c hc), fun hc => hparagraph (.tail c hc)⟩
  exact hreturn (i + 1) (by simpa using hi) hc

theorem append_right {front : List Char} (h : PlainLines (front ++ cs)) : PlainLines cs := by
  induction front with
  | nil => exact h
  | cons c front ih => exact ih h.tail

/-- A character that ends a line is a line feed, or it stands right in front of one. -/
theorem lineEnd (h : PlainLines (c :: cs)) (hc : isLineEnd c = true) :
    c = '\n' ∨ c = '\r' ∧ ∃ ds, cs = '\n' :: ds := by
  obtain ⟨hreturn, hline, hparagraph⟩ := h
  simp only [isLineEnd, Bool.or_eq_true, beq_iff_eq] at hc
  rcases hc with ((rfl | rfl) | rfl) | rfl
  · exact .inl rfl
  · have hnext := hreturn 0 (by simp) rfl
    cases cs with
    | nil => cases hnext
    | cons d ds =>
      cases hnext
      exact .inr ⟨rfl, ds, rfl⟩
  · exact absurd (List.mem_cons_self ..) hline
  · exact absurd (List.mem_cons_self ..) hparagraph

end PlainLines

/-! ### Results -/

/-- A result is `good`, or the error is `bad`. -/
def Except.Meets {ε α : Type} (good : α → Prop) (bad : ε → Prop) : Except ε α → Prop
  | .ok a => good a
  | .error e => bad e

theorem Except.Meets.bind {ε α β : Type} {P : α → Prop} {Q : β → Prop} {bad : ε → Prop}
    {x : Except ε α} {f : α → Except ε β} (hx : Except.Meets P bad x)
    (hf : ∀ a, P a → Except.Meets Q bad (f a)) : Except.Meets Q bad (x >>= f) := by
  cases x with
  | error e => exact hx
  | ok a => exact hf a hx

theorem Except.Meets.imp {ε α : Type} {P Q : α → Prop} {bad bad' : ε → Prop} {x : Except ε α}
    (hx : Except.Meets P bad x) (hgood : ∀ a, P a → Q a) (hbad : ∀ e, bad e → bad' e) :
    Except.Meets Q bad' x := by
  cases x with
  | error e => exact hbad e hx
  | ok a => exact hgood a hx

/-- An error at a place of the source. -/
def ScanError.In (source : List Char) (e : ScanError) : Prop := Within source e.place

/-! ### Gaps -/

/-- A comment that has to be closed was opened at a place of the source. -/
def GapPart.In (source : List Char) : GapPart → Prop
  | .closedComment opened => Within source opened
  | _ => True

theorem skipGap_stands {source rest : List Char} {part : GapPart} {p : Place} {newline : Bool}
    (hp : Stands source p rest) (hplain : PlainLines rest) (hpart : part.In source) :
    Except.Meets (fun cursor => Stands source cursor.place cursor.rest) (ScanError.In source)
      (skipGap part p newline rest) := by
  fun_induction skipGap part p newline rest with
  | case1 p newline cs ih =>
    exact ih (hp.right_one (by decide)).nextLine hplain.tail.tail trivial
  | case2 p newline cs ih => exact ih (hp.right_two (by decide) (by decide)) hplain.tail.tail trivial
  | case3 p newline cs ih =>
    exact ih (hp.right_two (by decide) (by decide)) hplain.tail.tail hp.within
  | case4 p newline c cs hreturn _ _ hc ih =>
    rcases hplain.lineEnd hc with rfl | ⟨rfl, ds, rfl⟩
    · exact ih hp.nextLine hplain.tail trivial
    · exact absurd rfl (hreturn _ rfl)
  | case5 p newline c cs _ _ _ hc _ ih =>
    refine ih (hp.right_one ?_) hplain.tail trivial
    rintro rfl
    exact hc rfl
  | case6 => exact hp
  | case7 => exact hp
  | case8 p newline cs ih =>
    exact ih (hp.right_one (by decide)).nextLine hplain.tail.tail trivial
  | case9 p newline c cs hreturn hc ih =>
    have hend : isLineEnd c = true := by rcases hc with rfl | rfl <;> decide
    rcases hplain.lineEnd hend with rfl | ⟨rfl, ds, rfl⟩
    · exact ih hp.nextLine hplain.tail trivial
    · exact absurd rfl (hreturn _ rfl)
  | case10 p newline c cs _ hc ih =>
    exact ih (hp.right_one (not_or.mp hc).1) hplain.tail trivial
  | case11 => exact hp
  | case12 p newline opened cs ih =>
    exact ih (hp.right_two (by decide) (by decide)) hplain.tail.tail trivial
  | case13 p newline opened cs hc ih => exact ih hp.nextLine hplain.tail hpart
  | case14 p newline opened c cs _ hc ih => exact ih (hp.right_one hc) hplain.tail hpart
  | case15 => exact hpart

/-! ### Strings -/

namespace StringLiteral

/-- Every line feed stands behind a backslash. -/
def feedsEscaped : List Char → Bool
  | [] => true
  | '\\' :: _ :: cs => feedsEscaped cs
  | c :: cs => c != '\n' && feedsEscaped cs

/-- In front of a character that is not escaped. -/
theorem feedsEscaped_cons {c : Char} {cs : List Char}
    (hback : ∀ d ds, c = '\\' → cs = d :: ds → False) :
    feedsEscaped (c :: cs) = (c != '\n' && feedsEscaped cs) := by
  rw [feedsEscaped]
  exact hback

theorem feedsEscaped_splitBody (quote : Char) (cs : List Char) :
    feedsEscaped (splitBody quote cs).1 = true := by
  fun_induction splitBody quote cs with
  | case1 => rfl
  | case2 c cs ih => exact ih
  | case3 => rfl
  | case4 c cs hback hc ih =>
    have hback' : ∀ d ds, c = '\\' → (splitBody quote cs).1 = d :: ds → False := by
      intro d ds hc hds
      cases cs with
      | nil => cases hds
      | cons e es => exact hback e es hc rfl
    rw [feedsEscaped_cons hback', ih, Bool.and_true, bne_iff_ne]
    exact fun h => hc (.inr (.inl h))

/-- Behind characters without a backslash among them. -/
theorem feedsEscaped_of_append {text rest : List Char} (h : feedsEscaped (text ++ rest) = true)
    (htext : '\\' ∉ text) : feedsEscaped rest = true := by
  induction text with
  | nil => exact h
  | cons c text ih =>
    have hc : c ≠ '\\' := fun hc => htext (hc ▸ List.mem_cons_self ..)
    rw [List.cons_append, feedsEscaped_cons fun _ _ h _ => hc h, Bool.and_eq_true] at h
    exact ih h.2 fun hmem => htext (List.mem_cons_of_mem c hmem)

/-- A text of `n` characters at the beginning, none of which is a backslash or a line feed. -/
def OnLine (cs : List Char) (n : Nat) : Prop :=
  ∃ text rest, cs = text ++ rest ∧ text.length = n ∧ '\\' ∉ text ∧ '\n' ∉ text

theorem decodeUnicode_onLine (p : Place) (cs : List Char) :
    Except.Meets (fun r => OnLine cs r.2) (fun e => ∃ n, OnLine cs n ∧ e.place = p.right n)
      (decodeUnicode p cs) := by
  have hnamed (ds : List Char) {n : Nat} (hn : OnLine cs n) :
      Except.Meets (fun r => OnLine cs r.2) (fun e => ∃ n, OnLine cs n ∧ e.place = p.right n)
        (decodeUnicode.named p ds n) := by
    unfold decodeUnicode.named
    split
    · exact hn
    · exact ⟨n, hn, rfl⟩
  unfold decodeUnicode
  split
  · next cs =>
    dsimp only
    have hdigits : cs.takeWhile isHexDigit ++ cs.drop (cs.takeWhile isHexDigit).length = cs :=
      List.prefix_iff_eq_append.mp <| List.takeWhile_prefix _
    have hback : '\\' ∉ cs.takeWhile isHexDigit := mt List.mem_takeWhile_imp (by decide)
    have hline : '\n' ∉ cs.takeWhile isHexDigit := mt List.mem_takeWhile_imp (by decide)
    generalize cs.takeWhile isHexDigit = ds at *
    generalize cs.drop ds.length = rest at *
    subst hdigits
    split
    · next hclose =>
      obtain ⟨r, rfl⟩ := List.head?_eq_some_iff.mp hclose
      exact hnamed ds ⟨'{' :: (ds ++ ['}']), r, by simp, by simp, by simp [hback], by simp [hline]⟩
    · exact ⟨_, ⟨'{' :: ds, rest, rfl, rfl, by simp [hback], by simp [hline]⟩, rfl⟩
  · have hdigits : (cs.take 4).takeWhile isHexDigit <+: cs.take 4 := List.takeWhile_prefix _
    obtain ⟨rest, hrest⟩ := hdigits.trans (List.take_prefix 4 cs)
    have hback : '\\' ∉ (cs.take 4).takeWhile isHexDigit := mt List.mem_takeWhile_imp (by decide)
    have hline : '\n' ∉ (cs.take 4).takeWhile isHexDigit := mt List.mem_takeWhile_imp (by decide)
    exact hnamed _ ⟨_, rest, hrest.symm, rfl, hback, hline⟩

theorem decode_stands {source body after : List Char} {p : Place}
    (hp : Stands source p (body ++ after)) (hbody : feedsEscaped body = true) :
    Except.Meets (fun r => Stands source r.2 after) (ScanError.In source) (decode p body) := by
  fun_induction decode p body with
  | case1 p => exact hp
  | case2 p => exact hp.right_one (by decide)
  | case3 p cs ih => exact ih (hp.right_one (by decide)).nextLine hbody
  | case4 p cs ih =>
    have hp2 : Stands source (p.right 2) (cs ++ after) := hp.right_two (by decide) (by decide)
    refine Except.Meets.bind ((decodeUnicode_onLine (p.right 2) cs).imp (fun _ h => h) ?_) ?_
    · rintro e ⟨n, ⟨text, rest, rfl, rfl, -, hline⟩, he⟩
      rw [List.append_assoc] at hp2
      exact ⟨_, he ▸ hp2.right hline⟩
    · rintro ⟨c, size⟩ ⟨text, rest, rfl, rfl, hback, hline⟩
      rw [List.append_assoc] at hp2
      have hrest := hp2.right hline
      rw [Place.right_right] at hrest
      refine Except.Meets.bind (ih text.length ?_ ?_) fun _ h => h
      · rwa [List.drop_left]
      · rw [List.drop_left]
        exact feedsEscaped_of_append hbody hback
  | case5 p c cs hline hu ih =>
    exact (ih (hp.right_two (by decide) hline) hbody).bind fun _ h => h
  | case6 p c cs _ _ _ hback ih =>
    rw [feedsEscaped_cons hback, Bool.and_eq_true, bne_iff_ne] at hbody
    exact (ih (hp.right_one hbody.1) hbody.2).bind fun _ h => h

end StringLiteral

/-! ### Words and numbers stay on their line -/

theorem NumberLiteral.newline_notMem_text (cs : List Char) : '\n' ∉ text cs := by
  have hdigits (cs : List Char) : '\n' ∉ cs.takeWhile Char.isDigit :=
    mt List.mem_takeWhile_imp (by decide)
  have hfraction (cs : List Char) : '\n' ∉ fraction cs := by
    unfold fraction
    split
    · split
      · exact List.not_mem_nil
      · simp [hdigits]
    · exact List.not_mem_nil
  have hexponent (cs : List Char) : '\n' ∉ exponent cs := by
    unfold exponent
    split
    · next c cs =>
      split
      · next hc =>
        have hmark : '\n' ≠ c := by rcases hc with rfl | rfl <;> decide
        split
        · next s ds =>
          split
          · next hs =>
            have hsign : '\n' ≠ s := by rcases hs with rfl | rfl <;> decide
            simp [hmark, hsign, hdigits]
          · exact List.not_mem_cons_of_ne_of_not_mem hmark (hdigits _)
        · simp [hmark]
      · exact List.not_mem_nil
    · exact List.not_mem_nil
  unfold text
  simp [hdigits, hfraction, hexponent]

theorem Symbol.newline_notMem_spelling (m : Symbol) : '\n' ∉ m.spelling.toList := by
  cases m <;> decide

/-! ### The reader -/

/-- The place that a token begins at. -/
def Token.place (t : Token) : Place := ⟨t.span.start, t.span.line, t.span.column⟩

namespace Scanner

variable {source : List Char} {s : Scanner}

/-- The reader stands in the source where its place says, and so did its tokens. -/
structure Located (source : List Char) (s : Scanner) : Prop where
  stands : Stands source s.place s.rest
  tokens : ∀ t ∈ s.tokens, Within source t.place

/-- A step leads to a place of the source, also if it fails. -/
abbrev Locates (source : List Char) : Except ScanError Scanner → Prop :=
  Except.Meets (Located source) (ScanError.In source)

namespace Located

theorem emit (h : s.Located source) (k : Kind) {stop : Place} {rest : List Char}
    (hstop : Stands source stop rest) : (s.emit k stop rest).Located source where
  stands := hstop
  tokens := by
    intro t ht
    rcases List.mem_cons.mp ht with rfl | ht
    · exact h.stands.within
    · exact h.tokens t ht

/-- A token that stays on its line. -/
theorem take (h : s.Located source) (k : Kind) (text : List Char) (htext : text <+: s.rest)
    (hline : '\n' ∉ text) : (s.take k text.length).Located source := by
  obtain ⟨rest, hrest⟩ := htext
  have hstands := h.stands
  rw [← hrest] at hstands
  rw [Scanner.take, ← hrest, List.drop_left]
  exact h.emit k (hstands.right hline)

theorem withFrames (h : s.Located source) (fs : Frames) : (s.withFrames fs).Located source :=
  ⟨h.stands, h.tokens⟩

/-- A token of one character. -/
theorem take_one (h : s.Located source) (k : Kind) {c : Char} {cs : List Char}
    (hr : s.rest = c :: cs) (hc : c ≠ '\n') : (s.take k 1).Located source :=
  h.take k [c] (by simp [hr]) (by simpa using hc.symm)

theorem string (h : s.Located source) {quote : Char} {cs : List Char} (hr : s.rest = quote :: cs)
    (hq : quote ≠ '\n') : Locates source (s.string quote) := by
  have hbody := StringLiteral.splitBody_append quote cs
  have hescaped := StringLiteral.feedsEscaped_splitBody quote cs
  have hstands := h.stands
  unfold Scanner.string
  rw [hr, List.drop_one, List.tail_cons]
  rw [hr, ← hbody] at hstands
  generalize StringLiteral.splitBody quote cs = parts at hescaped hstands ⊢
  obtain ⟨body, rest⟩ := parts
  refine (StringLiteral.decode_stands (hstands.right_one hq) hescaped).bind ?_
  rintro ⟨text, stop⟩ hstop
  dsimp only
  split
  · next c cs =>
    split
    · next hc => exact h.emit _ (hstop.right_one (hc ▸ hq))
    · exact h.stands.within
  · exact h.stands.within

theorem number (h : s.Located source) : Locates source s.number := by
  have htext := NumberLiteral.isPrefix_text s.rest
  have hline := NumberLiteral.newline_notMem_text s.rest
  unfold Scanner.number
  dsimp only
  split
  · exact h.take _ _ htext hline
  · exact (h.take .null _ htext hline).stands.within

theorem word (h : s.Located source) : s.word.Located source := by
  refine h.take _ _ ?_ (mt List.mem_takeWhile_imp (by decide +kernel))
  exact List.takeWhile_prefix _

theorem opening (h : s.Located source) {c : Char} {cs : List Char} (hr : s.rest = c :: cs)
    (hc : c ≠ '\n') (mark : Symbol) (frame : Frame) : (s.opening mark frame).Located source :=
  (h.take_one _ hr hc).withFrames _

theorem closing (h : s.Located source) {c : Char} {cs : List Char} (hr : s.rest = c :: cs)
    (hc : c ≠ '\n') (mark : Symbol) : Locates source (s.closing mark c) := by
  unfold Scanner.closing
  split
  · exact h.stands.within
  · have hmark := h.take_one (.symbol mark) hr hc
    show Located source (if _ then _ else _)
    split
    · exact ⟨hmark.stands, hmark.tokens⟩
    · exact hmark.withFrames _

theorem operator (h : s.Located source) (c : Char) : Locates source (s.operator c) := by
  unfold Scanner.operator
  split
  · exact h.stands.within
  · next mark hmark =>
    have hspelling : mark.spelling.toList <+: s.rest := by
      have := List.find?_some hmark
      simp only [Bool.and_eq_true] at this
      exact List.isPrefixOf_iff_prefix.mp this.1
    have htake := h.take (.symbol mark) _ hspelling mark.newline_notMem_spelling
    rw [String.length_toList] at htake
    show Located source (if _ then _ else _)
    split
    · exact htake.withFrames _
    · exact htake

/-- A token does not start with a line feed, which belongs to the gap in front of it. -/
theorem script (h : s.Located source) {c : Char} {cs : List Char} (hr : s.rest = c :: cs) :
    Locates source (s.script c) := by
  unfold Scanner.script
  split
  · next hq =>
    refine h.string hr ?_
    rcases hq with rfl | rfl <;> decide
  split
  · exact h.number
  split
  · exact h.word
  split
  · exact h.opening hr (by decide) _ _
  · exact h.opening hr (by decide) _ _
  · exact h.opening hr (by decide) _ _
  · exact h.closing hr (by decide) _
  · exact h.closing hr (by decide) _
  · exact h.closing hr (by decide) _
  · exact h.operator c

theorem token (h : s.Located source) : Locates source s.token := by
  unfold Scanner.token
  split
  · exact h
  · next c cs hr =>
    split
    · split
      · next hc =>
        refine h.take _ (c :: cs.takeWhile isNamePart) ?_ ?_
        · rw [hr]
          exact List.cons_prefix_cons.mpr ⟨rfl, List.takeWhile_prefix _⟩
        · refine List.not_mem_cons_of_ne_of_not_mem ?_ (mt List.mem_takeWhile_imp (by decide))
          rintro rfl
          exact absurd hc (by decide)
      · split
        · next hc => exact (h.take_one _ hr (by rw [hc]; decide)).withFrames _
        · exact h.script hr
    · split
      · next hc => exact h.opening hr (by rw [hc.1]; decide) _ _
      · split
        · next hc => exact h.take_one _ hr (by rw [hc]; decide)
        · exact h.script hr

theorem gap (h : s.Located source) (hplain : PlainLines source) : Locates source s.gap := by
  obtain ⟨front, hfront, -⟩ := h.stands
  have hpart : GapPart.In source .blanks := trivial
  refine (skipGap_stands h.stands (hfront ▸ hplain).append_right hpart).bind ?_
  exact fun cursor hcursor => ⟨hcursor, h.tokens⟩

theorem run (h : s.Located source) (hplain : PlainLines source) (n : Nat) :
    Locates source (Scanner.run n s) := by
  induction n generalizing s with
  | zero => exact h
  | succ n ih =>
    refine (h.gap hplain).bind fun s₁ h₁ => ?_
    split
    · exact h₁
    · exact h₁.token.bind fun s₂ h₂ => ih h₂

end Located

end Scanner

/-- **Lines and columns.** In a source whose lines end with a line feed, with or without a carriage
return in front, every token notes the line and the column of its beginning. If the source has no
tokens, the error notes the line and the column of some place in the source. -/
theorem tokenize_positions {source : String} (h : PlainLines source.toList) :
    (∀ tokens, tokenize source = .ok tokens → ∀ t ∈ tokens,
      t.span.start ≤ source.toList.length ∧
      t.span.line = lineBehind (source.toList.take t.span.start) ∧
      t.span.column = columnBehind (source.toList.take t.span.start)) ∧
    ∀ e, tokenize source = .error e → ∃ k ≤ source.toList.length,
      e.place.line = lineBehind (source.toList.take k) ∧
      e.place.column = columnBehind (source.toList.take k) := by
  have hstart : (Scanner.start source.toList).Located source.toList := ⟨.start _, nofun⟩
  have hrun := hstart.run h (source.toList.length + 1)
  constructor
  · intro tokens htokens t ht
    obtain ⟨s, hs, htokens⟩ := Except.bind_eq_ok.mp htokens
    cases htokens
    rw [hs] at hrun
    have hend := hrun.take .endOfInput [] List.nil_prefix List.not_mem_nil
    obtain ⟨rest, hrest⟩ := hend.tokens t (List.mem_reverse.mp ht)
    exact hrest.eq_behind_take
  · intro e he
    cases hs : Scanner.run (source.toList.length + 1) (.start source.toList) with
    | ok s =>
      rw [tokenize, hs] at he
      cases he
    | error e' =>
      rw [tokenize, hs] at he
      cases he
      rw [hs] at hrun
      obtain ⟨rest, hrest⟩ := hrun
      exact ⟨e.place.offset, hrest.eq_behind_take⟩

/-- Two lines end in a comment and in a string. -/
def linesText : String := "a /*\r\n*/ 'b\\\nc' d"

/-- The string is not closed on its line. -/
def openStringText : String := "a\r\n 'b\n"

theorem tokenize_linesText :
    (∃ tokens, tokenize linesText = .ok tokens ∧
      tokens.map (fun t => (t.span.line, t.span.column)) = [(1, 1), (2, 4), (3, 4), (3, 5)] ∧
      ∀ t ∈ tokens, t.span.line = lineBehind (linesText.toList.take t.span.start) ∧
        t.span.column = columnBehind (linesText.toList.take t.span.start)) ∧
    ∃ e, tokenize openStringText = .error e ∧ e.place = ⟨4, 2, 2⟩ ∧
      ∃ k ≤ openStringText.toList.length, e.place.line = lineBehind (openStringText.toList.take k) ∧
        e.place.column = columnBehind (openStringText.toList.take k) := by
  have hopen : tokenize openStringText = .error ⟨.unterminatedString, ⟨4, 2, 2⟩⟩ := by
    decide +kernel
  refine ⟨?_, _, hopen, rfl, (tokenize_positions (by decide +kernel)).2 _ hopen⟩
  have hlines : (tokenize linesText).toOption.any
      (·.map (fun t => (t.span.line, t.span.column)) == [(1, 1), (2, 4), (3, 4), (3, 5)]) = true := by
    decide +kernel
  cases h : tokenize linesText with
  | error e =>
    rw [h] at hlines
    cases hlines
  | ok tokens =>
    rw [h] at hlines
    refine ⟨tokens, rfl, by simpa [Except.toOption] using hlines, fun t ht => ?_⟩
    exact ((tokenize_positions (by decide +kernel)).1 tokens h t ht).2

end MarkupScript
