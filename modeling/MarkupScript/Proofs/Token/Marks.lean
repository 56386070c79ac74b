import Mathlib.Data.List.Find
import MarkupScript.Proofs.Token.Steps

/-!
# Reading marks

An operator is read as the longest mark that the source starts with. A mark is read as itself if the
next character does not extend it to another one.
-/

namespace MarkupScript

namespace Symbol

/-- Whether some operator starts with a mark and a further character. -/
def extendedBy (m : Symbol) (c : Char) : Bool :=
  operators.any fun s => (m.spelling.toList ++ [c]).isPrefixOf s.spelling.toList

/-- The characters that extend a mark. -/
def extensions (m : Symbol) : List Char :=
  operators.filterMap fun s =>
    if m.spelling.toList.isPrefixOf s.spelling.toList then
      s.spelling.toList[m.spelling.toList.length]?
    else none

theorem extendedBy_eq_false {m : Symbol} {c : Char} (h : c ∉ m.extensions) :
    m.extendedBy c = false := by
  refine List.any_eq_false.mpr fun s hs hext => h (List.mem_filterMap.mpr ⟨s, hs, ?_⟩)
  obtain ⟨rest, hrest⟩ := List.isPrefixOf_iff_prefix.mp hext
  simp [← hrest]

/-- No operator stands in front of a longer one that starts with it. -/
theorem find?_spelling : ∀ m ∈ operators,
    operators.find? (fun s => s.spelling.toList.isPrefixOf m.spelling.toList) = some m := by
  decide

/-- Behind a mark, a character that does not extend it makes no other mark. -/
theorem isPrefixOf_spelling_append {m s : Symbol} (hs : s ∈ operators) {c : Char} {r : List Char}
    (h : m.extendedBy c = false) :
    s.spelling.toList.isPrefixOf (m.spelling.toList ++ c :: r) =
      s.spelling.toList.isPrefixOf m.spelling.toList := by
  rw [Bool.eq_iff_iff, List.isPrefixOf_iff_prefix, List.isPrefixOf_iff_prefix]
  refine ⟨fun hp => ?_, fun hp => hp.trans (List.prefix_append _ _)⟩
  have hc : m.spelling.toList ++ [c] <+: m.spelling.toList ++ c :: r := by
    simp
  rcases List.prefix_or_prefix_of_prefix hp hc with hle | hext
  · rcases List.prefix_concat_iff.mp hle with heq | hle
    · exfalso
      refine absurd (List.any_eq_false.mp h s hs) ?_
      simp [heq]
    · exact hle
  · exact absurd (List.isPrefixOf_iff_prefix.mpr hext) (List.any_eq_false.mp h s hs)

theorem eq_optionalChain : ∀ m ∈ operators,
    optionalChain.spelling.toList.isPrefixOf m.spelling.toList = true → m = optionalChain := by
  decide

/-- A mark is read as itself if what follows does not extend it. -/
theorem operator?_spelling {m : Symbol} (hm : m ∈ operators) {r : List Char}
    (hext : ∀ c ∈ r.head?, m.extendedBy c = false)
    (hdigit : m = .optionalChain → ∀ c ∈ r.head?, c.isDigit = false) :
    operator? (m.spelling.toList ++ r) = some m := by
  rw [operator?, ← find?_spelling m hm]
  refine List.find?_congr fun s hs => ?_
  have hsame : s.spelling.toList.isPrefixOf (m.spelling.toList ++ r) =
      s.spelling.toList.isPrefixOf m.spelling.toList := by
    cases r with
    | nil => rw [List.append_nil]
    | cons c r => exact isPrefixOf_spelling_append hs (hext c rfl)
  rw [hsame]
  cases hp : s.spelling.toList.isPrefixOf m.spelling.toList with
  | false => rfl
  | true =>
    by_cases hchain : s = .optionalChain
    · subst hchain
      obtain rfl := eq_optionalChain m hm hp
      have hr : (optionalChain.spelling.toList ++ r)[2]? = r.head? := by
        rw [List.head?_eq_getElem?]
        rfl
      cases hhead : r.head? with
      | none => simp [hr, hhead]
      | some c => simp [hr, hhead, hdigit rfl c hhead]
    · simp [hchain]

end Symbol

/-- The mark that closes a frame. -/
def Frame.closingMark : Frame → Symbol
  | block | braces => .rightBrace
  | parens => .rightParen
  | brackets => .rightBracket
  | openTag | closeTag => .tagEnd

namespace Scanner

/-! ### Reading by the first character -/

/-- Outside a tag a token of the script is read unless a tag or a decorator starts; inside, unless a
name comes or the tag ends. -/
theorem token_eq_script {s : Scanner} {c : Char} {cs : List Char} (hr : s.rest = c :: cs)
    (htag : s.frames.current.isTag = true → isNameStart c = false ∧ c ≠ '>')
    (hopen : s.frames.current.isTag = false → c = '<' → s.opensTag = false) (hat : c ≠ '@') :
    s.token = s.script c := by
  rw [token, hr]
  simp only
  cases ht : s.frames.current.isTag with
  | true => simp [(htag ht).1, (htag ht).2]
  | false =>
    have hless : ¬(c = '<' ∧ s.opensTag = true) := by
      rintro ⟨hc, ho⟩
      rw [hopen ht hc] at ho
      cases ho
    simp [hless, hat]

/-- Whether a character can only start an operator: no string, number, name, bracket or gap starts
with it. -/
def isOperatorChar (c : Char) : Bool :=
  !(['"', '\'', '(', '[', '{', ')', ']', '}', '@'].contains c) && !c.isDigit &&
    !isIdentifierStart c && !isLineEnd c && !isSpace c

theorem script_eq_operator {s : Scanner} {c : Char} (hc : isOperatorChar c = true)
    (hpoint : c = '.' → (s.rest[1]?).any Char.isDigit = false) : s.script c = s.operator c := by
  simp only [isOperatorChar, Bool.and_eq_true, Bool.not_eq_true', List.contains_eq_mem,
    decide_eq_false_iff_not, List.mem_cons, List.not_mem_nil, or_false, not_or] at hc
  obtain ⟨⟨⟨⟨hne, hdigit⟩, hstart⟩, -⟩, -⟩ := hc
  have hnumber : (c.isDigit || c == '.' && (s.rest[1]?).any Char.isDigit) = false := by
    rw [hdigit, Bool.false_or]
    by_cases h : c = '.'
    · simp [hpoint h]
    · simp [h]
  unfold script
  simp only [hne.1, hne.2.1, or_self, if_false, hnumber, hstart, Bool.false_eq_true]
  split <;> simp_all

theorem exists_cons_spelling : ∀ m ∈ Symbol.operators,
    ∃ c cs, m.spelling.toList = c :: cs ∧ isOperatorChar c = true := by
  have hcheck : ∀ m ∈ Symbol.operators, m.spelling.toList.head?.any isOperatorChar = true := by
    decide +kernel
  intro m hm
  have := hcheck m hm
  cases hs : m.spelling.toList with
  | nil => simp [hs] at this
  | cons c cs => exact ⟨c, cs, rfl, by simpa [hs] using this⟩

/-! ### What may follow a mark -/

/-- What follows a mark makes no other token with it. -/
def EndsBefore (m : Symbol) (r : List Char) : Prop :=
  ∀ c ∈ r.head?, m.extendedBy c = false ∧ (m = .dot ∨ m = .optionalChain → c.isDigit = false) ∧
    (m = .slash → c ≠ '/' ∧ c ≠ '*')

theorem EndsBefore.space (m : Symbol) (r : List Char) : EndsBefore m (' ' :: r) := by
  rintro c ⟨⟩
  exact ⟨by cases m <;> decide, fun _ => rfl, fun _ => by decide⟩

/-- Most marks are told from others by the next character alone. -/
theorem EndsBefore.of_extensions {m : Symbol} {r : List Char}
    (hm : m ≠ .dot ∧ m ≠ .optionalChain ∧ m ≠ .slash) (h : ∀ c ∈ r.head?, c ∉ m.extensions) :
    EndsBefore m r :=
  fun c hc => ⟨Symbol.extendedBy_eq_false (h c hc),
    fun hdot => hdot.elim (absurd · hm.1) (absurd · hm.2.1), (absurd · hm.2.2)⟩

/-- A mark that starts no longer one ends before anything. -/
theorem EndsBefore.of_longest {m : Symbol} (h : m.extensions = [])
    (hm : m ≠ .dot ∧ m ≠ .optionalChain ∧ m ≠ .slash) (r : List Char) : EndsBefore m r :=
  .of_extensions hm fun c _ => by simp [h]

/-- A dot, alone or behind a question mark, stands in front of a word. -/
theorem EndsBefore.of_word {m : Symbol} {r : List Char} (hm : m = .dot ∨ m = .optionalChain)
    (h : ∀ c ∈ r.head?, isIdentifierStart c = true) : EndsBefore m r := by
  intro c hc
  refine ⟨?_, fun _ => ?_, ?_⟩
  · have hlongest : m.extensions = [] := by rcases hm with rfl | rfl <;> decide
    exact Symbol.extendedBy_eq_false (by simp [hlongest])
  · rw [Bool.eq_false_iff]
    intro hdigit
    exact absurd (h c hc) (by simp [isIdentifierStart_of_isDigit hdigit])
  · rintro rfl
    rcases hm with hm | hm <;> cases hm

/-! ### Marks -/

/-- A mark at this place is read as an operator: it is not part of a tag's name, and a `<` does not
open a tag. -/
structure Admits (s : Scanner) (m : Symbol) : Prop where
  inTag : s.frames.current.isTag = true →
    m = .assign ∨ m = .slash ∧ s.latest? ≠ some (.symbol .tagStart)
  compares : m = .less ∨ m = .lessEqual → s.opensTag = false

theorem Admits.of_not_isTag {s : Scanner} {m : Symbol} (hs : s.frames.current.isTag = false)
    (hm : m ≠ .less ∧ m ≠ .lessEqual) : s.Admits m :=
  ⟨fun h => absurd (hs.symm.trans h) Bool.false_ne_true,
    fun h => h.elim (absurd · hm.1) (absurd · hm.2)⟩

theorem startsToken_spelling {m : Symbol} (hm : m ∈ Symbol.operators) {r : List Char}
    (hr : EndsBefore m r) : startsToken (m.spelling.toList ++ r) = true := by
  have hcheck : ∀ m ∈ Symbol.operators, m ≠ .slash →
      m.spelling.toList.head? ≠ some '/' ∨ m.spelling.toList[1]? = some '=' := by decide
  obtain ⟨c, cs, hspell, hc⟩ := exists_cons_spelling m hm
  simp only [isOperatorChar, Bool.and_eq_true] at hc
  obtain ⟨⟨-, hline⟩, hspace⟩ := hc
  simp only [hspell, List.cons_append, startsToken, hline, hspace, Bool.true_and]
  by_cases hslash : m = .slash
  · subst hslash
    cases hspell
    cases r with
    | nil => rfl
    | cons d r =>
      have := (hr d rfl).2.2 rfl
      simp [this.1, this.2]
  · rcases hcheck m hm hslash with h | h
    · simp only [hspell, List.head?_cons, ne_eq, Option.some.injEq] at h
      simp [h]
    · cases cs with
      | nil => simp [hspell] at h
      | cons d cs =>
        simp only [hspell, List.getElem?_cons_succ, List.getElem?_cons_zero,
          Option.some.injEq] at h
        simp [h]

theorem token_spelling {s : Scanner} {m : Symbol} {r : List Char} (hm : m ∈ Symbol.operators)
    (hrest : s.rest = m.spelling.toList ++ r) (hr : EndsBefore m r) (hs : s.Admits m) :
    s.token = .ok (s.emit (.symbol m) (s.place.right m.spelling.length) r) := by
  have hless : ∀ m ∈ Symbol.operators, m.spelling.toList.head? = some '<' →
      m = .less ∨ m = .lessEqual := by decide
  have hpoint : ∀ m ∈ Symbol.operators, m.spelling.toList.head? = some '.' → m = .dot := by decide
  obtain ⟨c, cs, hspell, hc⟩ := exists_cons_spelling m hm
  have hhead : m.spelling.toList.head? = some c := by simp [hspell]
  have hscript : s.token = s.script c := by
    refine token_eq_script (by rw [hrest, hspell, List.cons_append]) (fun htag => ?_)
      (fun _ hc => hs.compares (hless m hm (hc ▸ hhead))) ?_
    · rcases hs.inTag htag with rfl | ⟨rfl, -⟩ <;> cases hspell <;> decide
    · rintro rfl
      exact absurd hc (by decide)
  have hdot : c = '.' → (s.rest[1]?).any Char.isDigit = false := by
    rintro rfl
    obtain rfl := hpoint m hm hhead
    have hnext : s.rest[1]? = r.head? := by
      rw [hrest, List.head?_eq_getElem?]
      rfl
    cases hd : r.head? with
    | none => simp [hnext, hd]
    | some d => simp [hnext, hd, (hr d hd).2.1 (.inl rfl)]
  have hop : Symbol.operator? s.rest = some m :=
    hrest ▸ Symbol.operator?_spelling hm (fun c hc => (hr c hc).1)
      (fun h c hc => (hr c hc).2.1 (.inr h))
  have hdrop : s.rest.drop m.spelling.length = r := by
    rw [hrest, ← String.length_toList, List.drop_left]
  rw [hscript, script_eq_operator hc hdot, operator, hop]
  simp only [take, hdrop]
  split
  · next h =>
    have hframes : s.frames.closeTag?.getD s.frames = s.frames := by
      unfold Frames.closeTag?
      split
      · next fs hfs =>
        have htag := hs.inTag (by simp [hfs, Frames.current, Frame.isTag])
        rw [h.1] at htag
        exact absurd h.2 (by simpa using htag)
      · rfl
    rw [hframes]
    rfl
  · rfl

namespace Scans

variable {s s₁ : Scanner} {l : Lexeme} {ls : List Lexeme} {fs : Frames} {r : List Char}

theorem mark (m : Symbol) (h : Scans s ls fs (m.spelling.toList ++ r) s₁)
    (hm : m ∈ Symbol.operators) (hr : EndsBefore m r) (hs : s₁.Admits m)
    (hl : l.kind = .symbol m) (hsame : l.sameLine = true → s₁.newline = false)
    (hnew : l.newLine = false) :
    ∃ s₂, Scans s (ls ++ [l]) fs r s₂ := by
  have hlen : r.length < (m.spelling.toList ++ r).length := by
    obtain ⟨c, cs, hspell, -⟩ := exists_cons_spelling m hm
    simp only [hspell, List.length_append, List.length_cons]
    omega
  have htoken : s₁.token = .ok { s₁.emit l.kind (s₁.place.right m.spelling.length) r with
      frames := fs, objectClosed := s₁.objectClosed } := by
    rw [hl, token_spelling hm h.rest hr hs, ← h.frames]
    rfl
  exact ⟨_, h.emit (startsToken_spelling hm hr) hlen hsame hnew htoken⟩

/-- A mark that stands outside of tags and does not start with `<`. -/
theorem scriptMark (m : Symbol) (h : Scans s ls fs (m.spelling.toList ++ r) s₁)
    (hm : m ∈ Symbol.operators) (hne : m ≠ .less ∧ m ≠ .lessEqual) (hr : EndsBefore m r)
    (hfs : fs.current.isTag = false) : ∃ s₂, Scans s (ls ++ [.mark m]) fs r s₂ :=
  h.mark m hm hr (.of_not_isTag (h.frames ▸ hfs) hne) rfl nofun rfl

/-! ### Brackets -/

/-- A token of one character. -/
theorem bracket {c : Char} {k : Kind} {gs : Frames} {closed : Bool}
    (h : Scans s ls fs (c :: r) s₁) (hc : startsToken [c] = true) (hslash : c ≠ '/')
    (htoken : s₁.token = .ok { s₁.take k 1 with frames := gs, objectClosed := closed }) :
    Scans s (ls ++ [{ kind := k }]) gs r
      { s₁.take k 1 with frames := gs, objectClosed := closed } := by
  have hdrop : s₁.rest.drop 1 = r := by rw [h.rest]; rfl
  have hstart : startsToken (c :: r) = true := by
    simpa [startsToken, hslash] using hc
  simp only [take, hdrop] at htoken ⊢
  exact h.emit (l := { kind := k }) hstart (by simp) (by rintro ⟨⟩) rfl htoken

theorem token_of_not_isTag {c : Char} (h : Scans s ls fs (c :: r) s₁)
    (hfs : fs.current.isTag = false) (hc : c ≠ '<' ∧ c ≠ '@') : s₁.token = s₁.script c :=
  token_eq_script h.rest (fun htag => absurd (h.frames ▸ htag) (by simp [hfs]))
    (fun _ hless => absurd hless hc.1) hc.2

theorem openParen (h : Scans s ls fs ('(' :: r) s₁) (hfs : fs.current.isTag = false) :
    ∃ s₂, Scans s (ls ++ [.mark .leftParen]) (.parens :: fs) r s₂ :=
  ⟨_, h.bracket (by decide +kernel) (by decide)
    (by rw [h.token_of_not_isTag hfs (by decide), ← h.frames]; rfl)⟩

theorem openBracket (h : Scans s ls fs ('[' :: r) s₁) (hfs : fs.current.isTag = false) :
    ∃ s₂, Scans s (ls ++ [.mark .leftBracket]) (.brackets :: fs) r s₂ :=
  ⟨_, h.bracket (by decide +kernel) (by decide)
    (by rw [h.token_of_not_isTag hfs (by decide), ← h.frames]; rfl)⟩

/-- The mark of a decorator. -/
theorem decoratorMark (h : Scans s ls fs ('@' :: r) s₁) (hfs : fs.current.isTag = false) :
    ∃ s₂, Scans s (ls ++ [.mark .decorator]) fs r s₂ := by
  have htoken : s₁.token = .ok (s₁.take (.symbol .decorator) 1) := by
    simp [token, h.rest, h.frames, hfs]
  exact ⟨_, h.bracket (by decide +kernel) (by decide) (by rw [htoken, ← h.frames]; rfl)⟩

/-- What a brace surrounds depends on the tokens before it. -/
theorem openBrace (h : Scans s ls fs ('{' :: r) s₁) :
    ∃ s₂, Scans s (ls ++ [.mark .leftBrace]) (s₁.braceFrame :: fs) r s₂ := by
  have hscript : s₁.token = s₁.script '{' :=
    token_eq_script h.rest (fun _ => by decide) (fun _ hc => absurd hc (by decide)) (by decide)
  exact ⟨_, h.bracket (by decide +kernel) (by decide) (by rw [hscript, ← h.frames]; rfl)⟩

/-- The character that closes the innermost frame. -/
theorem close {f : Frame} (h : Scans s ls (f :: fs) (f.closer :: r) s₁) (hf : f.isTag = false) :
    ∃ s₂, Scans s (ls ++ [.mark f.closingMark]) fs r s₂ ∧
      s₂.objectClosed = if f.closer = '}' then f == .braces else s₁.objectClosed := by
  have hne : f.closer ≠ '<' ∧ f.closer ≠ '@' := by cases f <;> decide
  have hchar : startsToken [f.closer] = true ∧ f.closer ≠ '/' := by cases f <;> decide +kernel
  have hclosing : s₁.script f.closer = s₁.closing f.closingMark f.closer := by
    cases f <;> first | rfl | cases hf
  have htoken : s₁.token = .ok { s₁.take (.symbol f.closingMark) 1 with
      frames := fs
      objectClosed := if f.closer = '}' then f == .braces else s₁.objectClosed } := by
    rw [h.token_of_not_isTag hf hne, hclosing, closing, h.frames]
    simp only [Frames.pop?, if_true]
    split <;> rfl
  exact ⟨_, h.bracket hchar.1 hchar.2 htoken, rfl⟩

theorem closeParen (h : Scans s ls (.parens :: fs) (')' :: r) s₁) :
    ∃ s₂, Scans s (ls ++ [.mark .rightParen]) fs r s₂ :=
  let ⟨s₂, h₂, _⟩ := h.close rfl
  ⟨s₂, h₂⟩

theorem closeBracket (h : Scans s ls (.brackets :: fs) (']' :: r) s₁) :
    ∃ s₂, Scans s (ls ++ [.mark .rightBracket]) fs r s₂ :=
  let ⟨s₂, h₂, _⟩ := h.close rfl
  ⟨s₂, h₂⟩

/-- A brace closes an object or a block, and the reader notes which. -/
theorem closeBrace {f : Frame} (h : Scans s ls (f :: fs) ('}' :: r) s₁)
    (hf : f = .block ∨ f = .braces) :
    ∃ s₂, Scans s (ls ++ [.mark .rightBrace]) fs r s₂ ∧ s₂.objectClosed = (f == .braces) := by
  rcases hf with rfl | rfl <;> exact h.close rfl

/-! ### Tags -/

theorem openTag (h : Scans s ls fs ('<' :: r) s₁) (hfs : fs.current.isTag = false)
    (hopens : s₁.opensTag = true) :
    ∃ s₂, Scans s (ls ++ [.mark .tagStart]) (.openTag :: fs) r s₂ := by
  have htoken : s₁.token = .ok (s₁.opening .tagStart .openTag) := by
    rw [token, h.rest]
    simp [h.frames, hfs, hopens]
  exact ⟨_, h.bracket (by decide +kernel) (by decide) (by rw [htoken, ← h.frames]; rfl)⟩

theorem closeTag {f : Frame} (h : Scans s ls (f :: fs) ('>' :: r) s₁) (hf : f.isTag = true) :
    ∃ s₂, Scans s (ls ++ [.mark .tagEnd]) fs r s₂ := by
  have htoken : s₁.token = .ok ((s₁.take (.symbol .tagEnd) 1).withFrames fs) := by
    rw [token, h.rest]
    simp [h.frames, Frames.current, hf, isNameStart]
  exact ⟨_, h.bracket (by decide +kernel) (by decide) (htoken.trans rfl)⟩

/-- A slash right behind the start of a tag makes it one that closes an element. -/
theorem endTagSlash (h : Scans s (ls ++ [.mark .tagStart]) (.openTag :: fs) ('/' :: r) s₁)
    (hr : EndsBefore .slash r) :
    ∃ s₂, Scans s (ls ++ [.mark .tagStart] ++ [.mark .slash]) (.closeTag :: fs) r s₂ := by
  have hscript : s₁.token = s₁.script '/' :=
    token_eq_script h.rest (fun _ => by decide) (fun _ hc => absurd hc (by decide)) (by decide)
  have hop : Symbol.operator? s₁.rest = some .slash :=
    h.rest ▸ Symbol.operator?_spelling (m := .slash) (by decide) (fun c hc => (hr c hc).1) nofun
  have htoken : s₁.token = .ok { s₁.emit (.symbol .slash) (s₁.place.right 1) r with
      frames := .closeTag :: fs, objectClosed := s₁.objectClosed } := by
    have hoperator : s₁.script '/' = s₁.operator '/' := rfl
    rw [hscript, hoperator, operator, hop]
    simp only
    rw [if_pos ⟨trivial, h.latest⟩, take, h.rest, h.frames]
    rfl
  exact ⟨_, h.emit (l := .mark .slash) (startsToken_spelling (m := .slash) (by decide) hr) (by simp)
    nofun rfl htoken⟩

end Scans

end Scanner

end MarkupScript
