import MarkupScript.Proofs.Token.Words
import MarkupScript.Text.Quoted

/-!
# Reading strings

A text in quotes reads back as itself, whatever it holds. In quotes a character stands for itself,
behind a backslash, or as four digits; `Denotes` says what each of these denotes, and reading a body
goes over them one by one.
-/

namespace MarkupScript

namespace StringLiteral

/-- What the characters between two quotes denote, one character of the text at a time. -/
inductive Denotes : List Char → Char → Prop
  | plain {c : Char} : c ≠ '"' → c ≠ '\\' → c ≠ '\n' → c ≠ '\r' → Denotes [c] c
  | escape {d : Char} : d ≠ 'u' → d ≠ '\n' → Denotes ['\\', d] (escaped d)
  | unicode {ds : List Char} {c : Char} : ds.length = 4 → ds.all isHexDigit = true →
    namedChar? ds = some c → Denotes ('\\' :: 'u' :: ds) c

/-- Four digits name the character that they were written for. -/
theorem denotes_fourDigits : ∀ n < 0xA0, (Text.fourDigits n).length = 4 ∧
    (Text.fourDigits n).all isHexDigit = true ∧
    namedChar? (Text.fourDigits n) = some (Char.ofNat n) := by
  decide +kernel

theorem denotes_quoteChar (c : Char) : Denotes (Text.quoteChar c) c := by
  unfold Text.quoteChar
  split
  case h_9 | h_10 => exact .unicode (by decide) (by decide) (by decide)
  case h_11 hquote hback hline hreturn _ _ _ _ _ _ =>
    split
    · next hcontrol =>
      have hlt : c.toNat < 0xA0 := by
        simp only [Text.isControl, Bool.or_eq_true, Bool.and_eq_true, decide_eq_true_eq] at hcontrol
        omega
      obtain ⟨hlen, hhex, hname⟩ := denotes_fourDigits c.toNat hlt
      exact .unicode hlen hhex (by rw [hname, Char.ofNat_toNat])
    · exact .plain hquote hback hline hreturn
  all_goals exact .escape (by decide) (by decide)

/-! ### The end of a body -/

theorem splitBody_plain {quote c : Char} (hc : c ≠ quote ∧ c ≠ '\\' ∧ c ≠ '\n' ∧ c ≠ '\r')
    (rest : List Char) :
    splitBody quote (c :: rest) = (c :: (splitBody quote rest).1, (splitBody quote rest).2) := by
  rw [splitBody]
  · simp [hc.1, hc.2.2.1, hc.2.2.2]
  · rintro d cs rfl
    exact absurd rfl hc.2.1

theorem splitBody_hexDigits {ds : List Char} (h : ds.all isHexDigit = true) (rest : List Char) :
    splitBody '"' (ds ++ rest) = (ds ++ (splitBody '"' rest).1, (splitBody '"' rest).2) := by
  induction ds with
  | nil => rfl
  | cons d ds ih =>
    simp only [List.all_cons, Bool.and_eq_true] at h
    have hd : d ≠ '"' ∧ d ≠ '\\' ∧ d ≠ '\n' ∧ d ≠ '\r' := by
      refine ⟨?_, ?_, ?_, ?_⟩ <;> rintro rfl <;> exact absurd h.1 (by decide)
    rw [List.cons_append, splitBody_plain hd, ih h.2]
    rfl

theorem Denotes.splitBody {code : List Char} {c : Char} (h : Denotes code c) (rest : List Char) :
    StringLiteral.splitBody '"' (code ++ rest) =
      (code ++ (StringLiteral.splitBody '"' rest).1, (StringLiteral.splitBody '"' rest).2) := by
  cases h with
  | plain h₁ h₂ h₃ h₄ => exact splitBody_plain ⟨h₁, h₂, h₃, h₄⟩ rest
  | escape => rfl
  | @unicode ds _ _ hhex _ =>
    show (('\\' :: 'u' :: (StringLiteral.splitBody '"' (ds ++ rest)).1),
      (StringLiteral.splitBody '"' (ds ++ rest)).2) = _
    rw [splitBody_hexDigits hhex]
    rfl

/-! ### What a body denotes -/

theorem decodeUnicode_fourDigits {p : Place} {ds rest : List Char} {c : Char}
    (hlen : ds.length = 4) (hhex : ds.all isHexDigit = true) (hname : namedChar? ds = some c) :
    decodeUnicode p (ds ++ rest) = .ok (c, 4) := by
  have hdigits : ((ds ++ rest).take 4).takeWhile isHexDigit = ds := by
    rw [← hlen, List.take_left]
    simpa using takeWhile_append_of_all (r := []) hhex nofun
  have hbrace : ∀ cs, ds ++ rest ≠ '{' :: cs := by
    intro cs h
    cases ds with
    | nil => cases hlen
    | cons d ds =>
      obtain ⟨rfl, -⟩ := List.cons.inj h
      exact absurd hhex (by simp [isHexDigit])
  unfold decodeUnicode
  split
  · next cs h => exact absurd h (hbrace cs)
  · simp only [hdigits, decodeUnicode.named, hname, hlen]

theorem Denotes.decode {code : List Char} {c : Char} (h : Denotes code c) (p : Place)
    (rest : List Char) : StringLiteral.decode p (code ++ rest) =
      (StringLiteral.decode (p.right code.length) rest).map fun (text, stop) =>
        (c :: text, stop) := by
  cases h with
  | plain _ hback _ _ =>
    rw [List.singleton_append, StringLiteral.decode]
    · show _ = (StringLiteral.decode (p.right 1) rest).map _
      cases StringLiteral.decode (p.right 1) rest <;> rfl
    all_goals intros; simp_all
  | escape hu hline =>
    rw [List.cons_append, List.singleton_append, StringLiteral.decode]
    · show _ = (StringLiteral.decode (p.right 2) rest).map _
      cases StringLiteral.decode (p.right 2) rest <;> rfl
    all_goals intros; simp_all
  | @unicode ds _ hlen hhex hname =>
    have hdrop : (ds ++ rest).drop 4 = rest := by rw [← hlen, List.drop_left]
    have hsize : ('\\' :: 'u' :: ds).length = 2 + 4 := by simp [hlen]
    rw [List.cons_append, List.cons_append, StringLiteral.decode,
      decodeUnicode_fourDigits hlen hhex hname, hsize]
    simp only [bind, Except.bind, hdrop]
    cases StringLiteral.decode (p.right (2 + 4)) rest <;> rfl

/-- If every character is written as something that denotes it, a text ends where it should and
denotes what was written. -/
theorem splitBody_flatMap {code : Char → List Char} (hcode : ∀ c, Denotes (code c) c)
    (cs r : List Char) :
    splitBody '"' (cs.flatMap code ++ '"' :: r) = (cs.flatMap code, '"' :: r) := by
  induction cs with
  | nil => rfl
  | cons c cs ih =>
    rw [List.flatMap_cons, List.append_assoc, (hcode c).splitBody, ih]

theorem decode_flatMap {code : Char → List Char} (hcode : ∀ c, Denotes (code c) c) (p : Place)
    (cs : List Char) :
    decode p (cs.flatMap code) = .ok (cs, p.right (cs.flatMap code).length) := by
  induction cs generalizing p with
  | nil => rw [List.flatMap_nil, decode]; rfl
  | cons c cs ih =>
    rw [List.flatMap_cons, (hcode c).decode, ih, List.length_append, ← Place.right_right]
    rfl

end StringLiteral

theorem Text.toList_quote (v : String) :
    (Text.quote v).toList = '"' :: (v.toList.flatMap Text.quoteChar ++ ['"']) := by
  simp [Text.quote]

namespace Scanner

variable {s s₁ : Scanner} {ls : List Lexeme} {fs : Frames} {v : String} {r : List Char}

open StringLiteral in
/-- A text in quotes is read as it is, and the reader stays on the line. -/
theorem string_quote (h : s.rest = (Text.quote v).toList ++ r) :
    s.string '"' = .ok (s.emit (.string v) (s.place.right (Text.quote v).length) r) := by
  have hrest : s.rest.drop 1 = v.toList.flatMap Text.quoteChar ++ '"' :: r := by
    simp [h, Text.toList_quote]
  have hlength : (Text.quote v).length = 1 + (v.toList.flatMap Text.quoteChar).length + 1 := by
    rw [← String.length_toList, Text.toList_quote]
    simp only [List.length_cons, List.length_append, List.length_nil]
    omega
  rw [string, hrest, splitBody_flatMap denotes_quoteChar]
  simp only [decode_flatMap denotes_quoteChar, bind, Except.bind, if_true, String.ofList_toList,
    Place.right_right, hlength]
  rfl

/-- Inside a tag and outside, a text in quotes is a string. -/
theorem token_eq_string (h : s.rest = (Text.quote v).toList ++ r) : s.token = s.string '"' := by
  have hrest : s.rest = '"' :: (v.toList.flatMap Text.quoteChar ++ '"' :: r) := by
    simp [h, Text.toList_quote]
  rw [token_eq_script hrest (fun _ => by decide) (fun _ hc => absurd hc (by decide)) (by decide)]
  rfl

theorem startsToken_quote (v : String) (r : List Char) :
    startsToken ((Text.quote v).toList ++ r) = true := by
  rw [Text.toList_quote]
  rfl

/-- A text in quotes, inside a tag or outside. -/
theorem Scans.string (h : Scans s ls fs ((Text.quote v).toList ++ r) s₁) :
    ∃ s₂, Scans s (ls ++ [.string v]) fs r s₂ := by
  have htoken : s₁.token = .ok { s₁.emit (.string v) (s₁.place.right (Text.quote v).length) r with
      frames := fs, objectClosed := s₁.objectClosed } := by
    rw [token_eq_string h.rest, string_quote h.rest, ← h.frames]
    rfl
  exact ⟨_, h.emit (l := .string v) (startsToken_quote v r) (by simp [Text.toList_quote]; omega)
    nofun rfl htoken⟩

theorem gap_quote (h : s.rest = (Text.quote v).toList ++ r) : s.gap = .ok s :=
  gap_of_startsToken (h ▸ startsToken_quote v r)

theorem run_quote (h : s.rest = (Text.quote v).toList ++ r) (n : Nat) :
    run (n + 1) s = run n (s.emit (.string v) (s.place.right (Text.quote v).length) r) := by
  have hne : s.rest.isEmpty = false := by simp [h, Text.toList_quote]
  rw [run, gap_quote h]
  simp only [bind, Except.bind, hne, Bool.false_eq_true, if_false, token_eq_string h,
    string_quote h]

end Scanner

/-- **String literals.** Wherever the reader stands, a text in quotes is read as the string that was
quoted, up to its closing quote and no further. The reader goes on with what follows on the same
line, in the same frames. On its own, a text in quotes has one token and the end of the source. -/
theorem tokenize_quote {s : Scanner} {v : String} {r : List Char}
    (h : s.rest = (Text.quote v).toList ++ r) :
    s.gap = .ok s ∧
    (∃ s', s.token = .ok s' ∧ (∀ n, Scanner.run (n + 1) s = Scanner.run n s') ∧ s'.rest = r ∧
      s'.place.offset = s.place.offset + (Text.quote v).length ∧
      s'.place.line = s.place.line ∧ s'.place.column = s.place.column + (Text.quote v).length ∧
      s'.frames = s.frames ∧ s'.objectClosed = s.objectClosed ∧ s'.newline = false ∧
      s'.tokens = ⟨.string v, ⟨s.place.offset, s.place.offset + (Text.quote v).length,
        s.place.line, s.place.column⟩, s.newline⟩ :: s.tokens) ∧
    tokenize (Text.quote v) = .ok [⟨.string v, ⟨0, (Text.quote v).length, 1, 1⟩, false⟩,
      ⟨.endOfInput, ⟨(Text.quote v).length, (Text.quote v).length, 1, 1 + (Text.quote v).length⟩,
        false⟩] := by
  refine ⟨Scanner.gap_quote h, ?_, ?_⟩
  · have htoken := (Scanner.token_eq_string h).trans (Scanner.string_quote h)
    have hrun := Scanner.run_quote h
    generalize (Text.quote v).length = n at htoken hrun ⊢
    exact ⟨_, htoken, hrun, rfl, rfl, rfl, rfl, rfl, rfl, rfl, rfl⟩
  · have hstart : (Scanner.start (Text.quote v).toList).rest = (Text.quote v).toList ++ [] := by
      simp [Scanner.start]
    obtain ⟨n, hn⟩ : ∃ n, (Text.quote v).toList.length = n + 1 :=
      ⟨_, by rw [Text.toList_quote, List.length_cons]⟩
    rw [tokenize, Scanner.run_quote hstart, hn, Scanner.run_of_rest_eq_nil rfl]
    simp [Scanner.take, Scanner.emit, Scanner.start, Place.right, Place.start, bind, Except.bind,
      pure, Except.pure]

/-- A reader inside a tag, in front of a string with escapes. -/
def quoteReader : Scanner :=
  { place := ⟨5, 2, 3⟩, rest := "\"\\\"\\u00012\\u2028\" b>".toList, newline := true,
    frames := [.openTag], objectClosed := false, tokens := [] }

theorem token_quoteReader :
    quoteReader.rest = (Text.quote "\"\x012\u2028").toList ++ " b>".toList ∧
    ∃ s', quoteReader.token = .ok s' ∧ s'.rest = " b>".toList ∧ s'.frames = [.openTag] ∧
      s'.tokens = [⟨.string "\"\x012\u2028", ⟨5, 22, 2, 3⟩, true⟩] := by
  have h : quoteReader.rest = (Text.quote "\"\x012\u2028").toList ++ " b>".toList := by
    decide +kernel
  have hlength : (Text.quote "\"\x012\u2028").length = 17 := by decide +kernel
  obtain ⟨-, ⟨s', htoken, -, hrest, -, -, -, hframes, -, -, htokens⟩, -⟩ := tokenize_quote h
  rw [hlength] at htokens
  exact ⟨h, s', htoken, hrest, hframes, htokens⟩

end MarkupScript
