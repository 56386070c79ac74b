import MarkupScript.Proofs.Token.Sound

/-!
# What reading one token does

`Scanner.Reads` says all that happens when one token is read: its text is taken from the front of
the source, the text spells the token, the token notes where the text stood, and the open frames
change as the token says. `Scanner.token_reads` shows it for every token there is.
-/

namespace MarkupScript

/-! ### Spelling -/

/-- The text of a fraction, and its digits. -/
inductive FractionText : List Char → List Char → Prop
  | none : FractionText [] []
  | point {ds : List Char} : ds.all Char.isDigit = true → FractionText ('.' :: ds) ds

/-- The text of an exponent, and its value. -/
inductive ExponentText : List Char → Int → Prop
  | none : ExponentText [] 0
  | unsigned {mark : Char} {ds : List Char} : mark = 'e' ∨ mark = 'E' → ds ≠ [] →
      ds.all Char.isDigit = true → ExponentText (mark :: ds) (digitsValue ds)
  | plus {mark : Char} {ds : List Char} : mark = 'e' ∨ mark = 'E' → ds ≠ [] →
      ds.all Char.isDigit = true → ExponentText (mark :: '+' :: ds) (digitsValue ds)
  | minus {mark : Char} {ds : List Char} : mark = 'e' ∨ mark = 'E' → ds ≠ [] →
      ds.all Char.isDigit = true → ExponentText (mark :: '-' :: ds) (-digitsValue ds)

/-- The text of a decimal: digits, a fraction and an exponent. Digits stand before the point or
behind it. -/
inductive DecimalText : List Char → Decimal → Prop
  | mk {whole fraction digits exponent : List Char} {e : Int} :
      whole.all Char.isDigit = true → FractionText fraction digits → ExponentText exponent e →
      whole ++ digits ≠ [] →
      DecimalText (whole ++ fraction ++ exponent)
        ⟨digitsValue (whole ++ digits), e - digits.length⟩

/-- A text spells a token. -/
inductive Spells : Kind → List Char → Prop
  | identifier (x : String) : Spells (.identifier x) x.toList
  | name (x : String) : Spells (.name x) x.toList
  | keyword (k : Keyword) : Spells (.keyword k) k.spelling.toList
  | true : Spells (.boolean true) "true".toList
  | false : Spells (.boolean false) "false".toList
  | null : Spells .null "null".toList
  | symbol (m : Symbol) : Spells (.symbol m) m.spelling.toList
  | number {text : List Char} {x : Decimal} : DecimalText text x →
      Spells (.number (x.nearest Bool.false)) text
  | string {quote : Char} {body text : List Char} {p stop : Place} : quote = '"' ∨ quote = '\'' →
      StringLiteral.decode p body = .ok (text, stop) →
      Spells (.string (String.ofList text)) (quote :: (body ++ [quote]))
  | endOfInput : Spells .endOfInput []

theorem spells_ofWord (x : String) : Spells (.ofWord x) x.toList := by
  unfold Kind.ofWord
  split
  · next k hk =>
    have hx : k.spelling = x := by simpa using List.find?_some hk
    exact hx ▸ .keyword k
  · split_ifs with h₁ h₂ h₃
    · exact h₁ ▸ .true
    · exact h₂ ▸ .false
    · exact h₃ ▸ .null
    · exact .identifier x

theorem Kind.ofWord_ne (x : String) : (∀ m, ofWord x ≠ .symbol m) ∧ ∀ y, ofWord x ≠ .name y := by
  unfold ofWord
  split
  · exact ⟨nofun, nofun⟩
  · split_ifs <;> exact ⟨nofun, nofun⟩

/-! ### Numbers -/

theorem exponentText_of_readExponent? {mark : Char} (hmark : mark = 'e' ∨ mark = 'E')
    {ds : List Char} {e : Int} (h : Decimal.readExponent? ds = some e) :
    ExponentText (mark :: ds) e := by
  have hdigits {ds : List Char} {n : Int} (h : Decimal.readExponent?.digits? ds = some n) :
      ds ≠ [] ∧ ds.all Char.isDigit = true ∧ n = digitsValue ds := by
    unfold Decimal.readExponent?.digits? at h
    split at h
    · next hds =>
      cases h
      exact ⟨hds.1, hds.2, rfl⟩
    · cases h
  unfold Decimal.readExponent? at h
  split at h
  · obtain ⟨hne, hall, rfl⟩ := hdigits h
    exact .plus hmark hne hall
  · obtain ⟨n, hn, rfl⟩ := Option.map_eq_some_iff.mp h
    obtain ⟨hne, hall, rfl⟩ := hdigits hn
    exact .minus hmark hne hall
  · obtain ⟨hne, hall, rfl⟩ := hdigits h
    exact .unsigned hmark hne hall

/-- What is read as a decimal is the text of one. -/
theorem decimalText_of_read? {text : List Char} {x : Decimal} (h : Decimal.read? text = some x) :
    DecimalText text x := by
  have htext : text = text.takeWhile Char.isDigit ++ text.dropWhile Char.isDigit :=
    List.takeWhile_append_dropWhile.symm
  have hwhole : (text.takeWhile Char.isDigit).all Char.isDigit = true := List.all_takeWhile
  unfold Decimal.read? at h
  rw [htext]
  split at h
  next digits rest hparts =>
  dsimp only at h
  split_ifs at h with hne
  have hne : text.takeWhile Char.isDigit ++ digits ≠ [] := by simpa using hne
  obtain ⟨e, hexponent, rfl⟩ : ∃ e, ExponentText rest e ∧
      x = ⟨digitsValue (text.takeWhile Char.isDigit ++ digits), e - digits.length⟩ := by
    split at h
    · cases h
      exact ⟨0, .none, rfl⟩
    · split_ifs at h with hmark
      obtain ⟨e, he, rfl⟩ := Option.map_eq_some_iff.mp h
      exact ⟨e, exponentText_of_readExponent? hmark he, rfl⟩
  split at hparts
  · next r hdrop =>
    cases hparts
    have hr : r.takeWhile Char.isDigit ++ r.dropWhile Char.isDigit = r :=
      List.takeWhile_append_dropWhile
    have hfound := DecimalText.mk hwhole (.point (List.all_takeWhile (l := r))) hexponent hne
    rwa [List.append_assoc, List.cons_append, hr, ← hdrop] at hfound
  · cases hparts
    have hfound := DecimalText.mk hwhole .none hexponent hne
    simpa only [List.append_nil] using hfound

namespace NumberLiteral

theorem isPrefix_fraction (cs : List Char) : fraction cs <+: cs := by
  unfold fraction
  split
  · split
    · exact List.nil_prefix
    · exact List.cons_prefix_cons.mpr ⟨rfl, List.takeWhile_prefix _⟩
  · exact List.nil_prefix

theorem isPrefix_exponent (cs : List Char) : exponent cs <+: cs := by
  unfold exponent
  split
  · split
    · split
      · split
        · exact List.cons_prefix_cons.mpr
            ⟨rfl, List.cons_prefix_cons.mpr ⟨rfl, List.takeWhile_prefix _⟩⟩
        · exact List.cons_prefix_cons.mpr ⟨rfl, List.takeWhile_prefix _⟩
      · exact List.prefix_rfl
    · exact List.nil_prefix
  · exact List.nil_prefix

/-- The text of a number stands at the beginning of the source. -/
theorem isPrefix_text (cs : List Char) : text cs <+: cs := by
  have hwhole := List.prefix_iff_eq_append.mp <| List.takeWhile_prefix Char.isDigit (l := cs)
  have hfraction := List.prefix_iff_eq_append.mp
    (isPrefix_fraction (cs.drop (cs.takeWhile Char.isDigit).length))
  have hexponent := isPrefix_exponent ((cs.drop (cs.takeWhile Char.isDigit).length).drop
    (fraction (cs.drop (cs.takeWhile Char.isDigit).length)).length)
  unfold text
  dsimp only
  conv_rhs => rw [← hwhole, ← hfraction]
  rw [List.append_assoc, List.prefix_append_right_inj, List.prefix_append_right_inj]
  exact hexponent

end NumberLiteral

/-! ### Strings -/

theorem StringLiteral.splitBody_append (quote : Char) (cs : List Char) :
    (splitBody quote cs).1 ++ (splitBody quote cs).2 = cs := by
  fun_induction splitBody quote cs with
  | case1 => rfl
  | case2 c cs ih => simp [ih]
  | case3 => rfl
  | case4 c cs _ _ ih => simp [ih]

theorem StringLiteral.decodeUnicode_size {p : Place} {cs : List Char} {c : Char} {size : Nat}
    (h : decodeUnicode p cs = .ok (c, size)) : size ≤ cs.length := by
  have hnamed {ds : List Char} {n : Nat} (h : decodeUnicode.named p ds n = .ok (c, size)) :
      size = n := by
    unfold decodeUnicode.named at h
    split at h <;> cases h
    rfl
  unfold decodeUnicode at h
  split at h
  · next cs =>
    dsimp only at h
    split at h
    · next hclose =>
      have hlt : (cs.takeWhile isHexDigit).length < cs.length := by
        by_contra hge
        rw [List.drop_eq_nil_of_le (by omega)] at hclose
        cases hclose
      rw [hnamed h, List.length_cons]
      omega
    · cases h
  · rw [hnamed h]
    have hdigits : (cs.take 4).takeWhile isHexDigit <+: cs.take 4 := List.takeWhile_prefix _
    exact Nat.le_trans hdigits.length_le (List.length_take_le' _ _)

/-- The place behind the body of a string is as far along as the body is long. -/
theorem StringLiteral.offset_decode {p stop : Place} {body text : List Char}
    (h : decode p body = .ok (text, stop)) : stop.offset = p.offset + body.length := by
  fun_induction decode p body generalizing text with
  | case1 | case2 =>
    cases h
    rfl
  | case3 p cs ih =>
    rw [ih h]
    simp [Place.nextLine, Place.right]
    omega
  | case4 p cs ih =>
    obtain ⟨⟨c, size⟩, hc, h⟩ := Except.bind_eq_ok.mp h
    obtain ⟨⟨rest, stop'⟩, hrest, h⟩ := Except.bind_eq_ok.mp h
    cases h
    have hsize := decodeUnicode_size hc
    rw [ih size hrest]
    simp [Place.right]
    omega
  | case5 p c cs _ _ ih =>
    obtain ⟨⟨rest, stop'⟩, hrest, h⟩ := Except.bind_eq_ok.mp h
    cases h
    rw [ih hrest]
    simp [Place.right]
    omega
  | case6 p c cs _ _ _ _ ih =>
    obtain ⟨⟨rest, stop'⟩, hrest, h⟩ := Except.bind_eq_ok.mp h
    cases h
    rw [ih hrest]
    simp [Place.right]
    omega

/-! ### Delimiters -/

namespace Symbol

/-- Whether a mark opens something that another mark closes. -/
def opens : Symbol → Bool
  | leftParen | leftBracket | leftBrace | tagStart => true
  | _ => false

/-- The mark that opened what a mark closes. -/
def opener? : Symbol → Option Symbol
  | rightParen => some leftParen
  | rightBracket => some leftBracket
  | rightBrace => some leftBrace
  | tagEnd => some tagStart
  | _ => none

end Symbol

/-- The mark that opens a frame. -/
def Frame.opener : Frame → Symbol
  | block | braces => .leftBrace
  | parens => .leftParen
  | brackets => .leftBracket
  | openTag | closeTag => .tagStart

/-- The marks that are open behind a token, innermost first. A closing mark closes the innermost
one, whatever it is. -/
def Kind.replay (open_ : List Symbol) : Kind → List Symbol
  | .symbol m =>
    if m.opens then m :: open_ else if m.opener?.isSome then open_.tail else open_
  | _ => open_

/-- Where a token can stand, and what becomes of the open frames. -/
structure FrameStep (fs : Frames) (k : Kind) (fs' : Frames) : Prop where
  /-- The marks that are open are those of the frames. -/
  replay : fs'.map Frame.opener = k.replay (fs.map Frame.opener)
  /-- A closing mark closes what its own opening mark opened. -/
  closes : ∀ m o, k = .symbol m → m.opener? = some o → (fs.map Frame.opener).head? = some o
  /-- Names stand in tags only. -/
  name : ∀ x, k = .name x → fs.current.isTag = true
  /-- Some marks do not stand in tags. -/
  inTag : fs.current.isTag = true →
    ∀ m ∈ [Symbol.leftParen, .leftBracket, .greater, .greaterEqual, .decorator, .tagStart],
      k ≠ .symbol m
  /-- A tag starts between statements only. -/
  tagStart : k = .symbol .tagStart → fs.current = .block

/-- A token that is neither a mark nor a name can stand anywhere and leaves the frames alone. -/
theorem FrameStep.plain (fs : Frames) {k : Kind} (hm : ∀ m, k ≠ .symbol m)
    (hn : ∀ x, k ≠ .name x) : FrameStep fs k fs where
  replay := by cases k <;> first | rfl | exact absurd rfl (hm _)
  closes m _ h := absurd h (hm m)
  name x h := absurd h (hn x)
  inTag _ m _ := hm m
  tagStart h := absurd h (hm _)

theorem Frames.eq_cons_of_pop? {c : Char} {f : Frame} {fs fs' : Frames}
    (h : fs.pop? c = some (f, fs')) : fs = f :: fs' ∧ f.closer = c := by
  unfold pop? at h
  split at h
  · split_ifs at h with hc
    cases h
    exact ⟨rfl, hc⟩
  · cases h

/-- Directly in a tag, the innermost frame is that of the tag. -/
theorem Frames.exists_tag_of_current {fs : Frames} (h : fs.current.isTag = true) :
    ∃ f fs', fs = f :: fs' ∧ f.opener = .tagStart := by
  cases fs with
  | nil => cases h
  | cons f fs =>
    refine ⟨f, fs, rfl, ?_⟩
    cases f <;> first | rfl | cases h

/-! ### Tokens -/

namespace Scanner

/-- The token that is read at a place, with the given text. -/
def tokenOf (s : Scanner) (k : Kind) (text : List Char) : Token where
  kind := k
  span := ⟨s.place.offset, s.place.offset + text.length, s.place.line, s.place.column⟩
  newlineBefore := s.newline

/-- A scanner reads one token with the given text. -/
structure Reads (s : Scanner) (k : Kind) (text : List Char) (s' : Scanner) : Prop where
  /-- The text stands in front. -/
  rest : s.rest = text ++ s'.rest
  nonempty : text ≠ []
  offset : s'.place.offset = s.place.offset + text.length
  /-- The token notes where the text stands. -/
  tokens : s'.tokens = s.tokenOf k text :: s.tokens
  spells : Spells k text
  frames : FrameStep s.frames k s'.frames
  /-- Behind the token, its line goes on. -/
  newline : s'.newline = false

variable {s s' : Scanner}

/-- A token on one line that leaves everything else to be said about frames. -/
theorem Reads.take {k : Kind} (text : List Char) (fs : Frames) (hr : text <+: s.rest)
    (hne : text ≠ []) (hspells : Spells k text) (hframes : FrameStep s.frames k fs) :
    s.Reads k text ((s.take k text.length).withFrames fs) where
  rest := (List.prefix_iff_eq_append.mp hr).symm
  nonempty := hne
  offset := rfl
  tokens := rfl
  spells := hspells
  frames := hframes
  newline := rfl

theorem string_reads {quote : Char} {cs : List Char} (hr : s.rest = quote :: cs)
    (hq : quote = '"' ∨ quote = '\'') (h : s.string quote = .ok s') :
    ∃ k text, s.Reads k text s' := by
  obtain ⟨⟨text, stop⟩, htext, h⟩ := Except.bind_eq_ok.mp h
  have hoffset := StringLiteral.offset_decode htext
  rw [hr, List.drop_one, List.tail_cons] at htext h hoffset
  have hbody := StringLiteral.splitBody_append quote cs
  generalize StringLiteral.splitBody quote cs = split at htext h hoffset hbody
  obtain ⟨body, rest⟩ := split
  dsimp only [Place.right] at htext h hoffset hbody
  split at h
  · next c cs' =>
    split at h
    · next hc =>
      cases h
      subst hc
      refine ⟨.string (String.ofList text), c :: (body ++ [c]),
        ⟨?_, List.cons_ne_nil _ _, ?_, ?_, .string hq htext, .plain _ nofun nofun, rfl⟩⟩
      · simp [hr, ← hbody, emit]
      · simp [emit, hoffset]
        omega
      · simp [emit, tokenOf, hoffset]
        omega
    · cases h
  · cases h

theorem number_reads (h : s.number = .ok s') : ∃ k text, s.Reads k text s' := by
  unfold number at h
  dsimp only at h
  split at h
  · next x hx =>
    cases h
    have hne : NumberLiteral.text s.rest ≠ [] := by
      intro hnil
      rw [hnil] at hx
      cases hx
    exact ⟨_, _, Reads.take _ s.frames (NumberLiteral.isPrefix_text s.rest) hne
      (.number (decimalText_of_read? hx)) (.plain _ nofun nofun)⟩
  · cases h

theorem word_reads {c : Char} {cs : List Char} (hr : s.rest = c :: cs)
    (hc : isIdentifierStart c = true) : ∃ k text, s.Reads k text s.word := by
  have hne : s.rest.takeWhile isIdentifierPart ≠ [] := by
    rw [hr, List.takeWhile_cons, if_pos (isIdentifierPart_of_isIdentifierStart hc)]
    exact List.cons_ne_nil _ _
  have hspells := spells_ofWord (String.ofList (s.rest.takeWhile isIdentifierPart))
  rw [String.toList_ofList] at hspells
  obtain ⟨hsymbol, hname⟩ := Kind.ofWord_ne (String.ofList (s.rest.takeWhile isIdentifierPart))
  have hfront : s.rest.takeWhile isIdentifierPart <+: s.rest := List.takeWhile_prefix _
  exact ⟨_, _, Reads.take _ s.frames hfront hne hspells (.plain _ hsymbol hname)⟩

/-- An opening mark. Only a brace can be opened in a tag, and a tag between statements. -/
theorem opening_reads {c : Char} {cs : List Char} (hr : s.rest = c :: cs) {m : Symbol} {f : Frame}
    (hspelling : m.spelling.toList = [c]) (hopens : m.opens = true) (hf : f.opener = m)
    (hin : s.frames.current.isTag = true → m = .leftBrace)
    (htag : m = .tagStart → s.frames.current = .block) :
    ∃ k text, s.Reads k text (s.opening m f) := by
  refine ⟨.symbol m, [c], Reads.take [c] (f :: s.frames) ?_ (List.cons_ne_nil _ _) ?_ ?_⟩
  · simp [hr]
  · exact hspelling ▸ Spells.symbol m
  · refine ⟨?_, ?_, nofun, ?_, ?_⟩
    · simp [Kind.replay, hopens, hf]
    · rintro m' o ⟨⟩ ho
      cases m <;> simp_all [Symbol.opens, Symbol.opener?]
    · intro ht m' hm'
      obtain rfl := hin ht
      rintro ⟨⟩
      simp at hm'
    · rintro ⟨⟩
      exact htag rfl

theorem closing_reads {c : Char} {cs : List Char} (hr : s.rest = c :: cs) {m : Symbol}
    (hm : m = .rightParen ∧ c = ')' ∨ m = .rightBracket ∧ c = ']' ∨ m = .rightBrace ∧ c = '}')
    (h : s.closing m c = .ok s') : ∃ k text, s.Reads k text s' := by
  unfold closing at h
  split at h
  · cases h
  · next f fs hpop =>
    have hframes := Frames.eq_cons_of_pop? hpop
    have hmark : m.opener? = some f.opener ∧ m.opens = false ∧ m.spelling.toList = [c] ∧
        m ∉ [Symbol.leftParen, .leftBracket, .greater, .greaterEqual, .decorator, .tagStart] := by
      obtain ⟨-, hc⟩ := hframes
      rcases hm with ⟨rfl, rfl⟩ | ⟨rfl, rfl⟩ | ⟨rfl, rfl⟩ <;> cases f <;>
        first | exact ⟨rfl, rfl, rfl, by decide⟩ | exact absurd hc (by decide)
    obtain ⟨hopener, hopens, hspelling, hin⟩ := hmark
    have hreads : s.Reads (.symbol m) [c] ((s.take (.symbol m) 1).withFrames fs) := by
      refine Reads.take [c] fs ?_ (List.cons_ne_nil _ _) ?_ ?_
      · simp [hr]
      · exact hspelling ▸ Spells.symbol m
      · rw [hframes.1]
        refine ⟨?_, ?_, nofun, ?_, ?_⟩
        · simp [Kind.replay, hopens, hopener]
        · rintro m' o ⟨⟩ ho
          rw [hopener] at ho
          cases ho
          rfl
        · rintro - m' hm' ⟨⟩
          exact hin hm'
        · rintro ⟨⟩
          exact absurd (by decide) hin
    refine ⟨.symbol m, [c], ?_⟩
    cases h
    split
    · exact ⟨hreads.rest, hreads.nonempty, hreads.offset, hreads.tokens, hreads.spells,
        hreads.frames, hreads.newline⟩
    · exact hreads

/-- What operators have in common: they open and close nothing. -/
theorem operators_plain : ∀ m ∈ Symbol.operators, m.opens = false ∧ m.opener? = none ∧
    m ≠ .tagStart ∧ m ≠ .decorator ∧ m.spelling.toList ≠ [] ∧
    (m = .greater ∨ m = .greaterEqual → m.spelling.toList.head? = some '>') := by
  decide

theorem operator_reads {c : Char} {cs : List Char} (hr : s.rest = c :: cs)
    (hc : s.frames.current.isTag = true → c ≠ '>') (h : s.operator c = .ok s') :
    ∃ k text, s.Reads k text s' := by
  unfold operator at h
  split at h
  · cases h
  · next m hm =>
    have hmem : m ∈ Symbol.operators := List.mem_of_find?_eq_some hm
    have hpre : m.spelling.toList <+: s.rest := by
      have := List.find?_some hm
      simp only [Bool.and_eq_true] at this
      exact List.isPrefixOf_iff_prefix.mp this.1
    obtain ⟨hopens, hopener, htag, hdecorator, hne, hgreater⟩ := operators_plain m hmem
    have hframes (fs : Frames) (hfs : fs.map Frame.opener = s.frames.map Frame.opener) :
        FrameStep s.frames (.symbol m) fs := by
      refine ⟨?_, ?_, nofun, ?_, ?_⟩
      · simp [Kind.replay, hopens, hopener, hfs]
      · rintro m' o ⟨⟩ ho
        rw [hopener] at ho
        cases ho
      · rintro ht m' hm' ⟨⟩
        have hhead : m.spelling.toList.head? ≠ some '>' := by
          obtain ⟨r, hr'⟩ := hpre
          cases hs : m.spelling.toList with
          | nil => exact absurd hs hne
          | cons d ds =>
            rw [hs, hr] at hr'
            cases hr'
            simpa using hc ht
        cases m <;> simp_all [Symbol.opens]
      · rintro ⟨⟩
        exact absurd rfl htag
    refine ⟨.symbol m, m.spelling.toList, ?_⟩
    cases h
    split
    · refine Reads.take _ _ hpre hne (.symbol m) (hframes _ ?_)
      unfold Frames.closeTag?
      split <;> simp [*, Frame.opener]
    · exact Reads.take _ _ hpre hne (.symbol m) (hframes s.frames rfl)

theorem opener_braceFrame (s : Scanner) : s.braceFrame.opener = .leftBrace := by
  unfold braceFrame
  repeat' split
  all_goals rfl

/-- A token of the script, in a tag only if it starts no name and does not end the tag. -/
theorem script_reads {c : Char} {cs : List Char} (hr : s.rest = c :: cs)
    (hc : s.frames.current.isTag = true → isNameStart c = false ∧ c ≠ '>')
    (h : s.script c = .ok s') : ∃ k text, s.Reads k text s' := by
  have hout (hname : isNameStart c = true) (m : Symbol) :
      s.frames.current.isTag = true → m = .leftBrace := by
    intro ht
    rw [(hc ht).1] at hname
    cases hname
  unfold script at h
  split at h
  · next hq => exact string_reads hr hq h
  split at h
  · exact number_reads h
  split at h
  · next hstart =>
    cases h
    exact word_reads hr hstart
  split at h
  · cases h
    exact opening_reads hr rfl rfl rfl (hout rfl _) nofun
  · cases h
    exact opening_reads hr rfl rfl rfl (hout rfl _) nofun
  · cases h
    exact opening_reads hr rfl rfl s.opener_braceFrame (fun _ => rfl) nofun
  · exact closing_reads hr (.inl ⟨rfl, rfl⟩) h
  · exact closing_reads hr (.inr (.inl ⟨rfl, rfl⟩)) h
  · exact closing_reads hr (.inr (.inr ⟨rfl, rfl⟩)) h
  · exact operator_reads hr (fun ht => (hc ht).2) h

/-- The end of a tag. -/
theorem tagEnd_reads {cs : List Char} (hr : s.rest = '>' :: cs)
    (ht : s.frames.current.isTag = true) :
    ∃ k text, s.Reads k text ((s.take (.symbol .tagEnd) 1).withFrames (s.frames.drop 1)) := by
  obtain ⟨f, fs, hfs, hf⟩ := Frames.exists_tag_of_current ht
  refine ⟨.symbol .tagEnd, ['>'], Reads.take ['>'] _ ?_ (List.cons_ne_nil _ _)
    (Spells.symbol .tagEnd) ?_⟩
  · simp [hr]
  · rw [hfs]
    refine ⟨rfl, ?_, nofun, ?_, nofun⟩
    · rintro _ o ⟨⟩ ho
      cases ho
      simp [hf]
    · rintro - m hm ⟨⟩
      simp at hm

/-- **One token.** Reading a token takes its text from the source and does what the token says. -/
theorem token_reads (hr : s.rest ≠ []) (h : s.token = .ok s') : ∃ k text, s.Reads k text s' := by
  unfold token at h
  split at h
  · contradiction
  · next c cs hr =>
    split at h
    · next ht =>
      split at h
      · next hc =>
        cases h
        refine ⟨_, c :: cs.takeWhile isNamePart, Reads.take _ s.frames ?_
          (List.cons_ne_nil _ _) ?_ ⟨rfl, nofun, fun _ _ => ht, nofun, nofun⟩⟩
        · rw [hr]
          exact List.cons_prefix_cons.mpr ⟨rfl, List.takeWhile_prefix _⟩
        · have := Spells.name (String.ofList (c :: cs.takeWhile isNamePart))
          rwa [String.toList_ofList] at this
      · next hname =>
        split at h
        · next hc =>
          cases h
          subst hc
          exact tagEnd_reads hr ht
        · next hc => exact script_reads hr (fun _ => ⟨by simpa using hname, hc⟩) h
    · next ht =>
      have hnot : s.frames.current.isTag = true → isNameStart c = false ∧ c ≠ '>' :=
        fun htag => absurd htag ht
      split at h
      · next hc =>
        cases h
        obtain ⟨rfl, hopens⟩ := hc
        have hblock : s.frames.current = .block := by
          unfold opensTag at hopens
          simp only [Bool.and_eq_true, beq_iff_eq] at hopens
          exact hopens.1
        exact opening_reads hr rfl rfl rfl (fun htag => absurd htag ht) fun _ => hblock
      · split at h
        · next hc =>
          cases h
          subst hc
          refine ⟨.symbol .decorator, ['@'], Reads.take ['@'] s.frames ?_ (List.cons_ne_nil _ _)
            (Spells.symbol .decorator) ⟨rfl, ?_, nofun, fun htag => absurd htag ht, nofun⟩⟩
          · simp [hr]
          · rintro _ o ⟨⟩ ho
            cases ho
        · exact script_reads hr hnot h

end Scanner

end MarkupScript
