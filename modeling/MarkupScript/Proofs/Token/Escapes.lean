import Mathlib
import MarkupScript.Proofs.Token.LineEnds
import MarkupScript.Proofs.Token.Strings

/-!
# Escapes in strings

What the body of a string literal denotes, as a relation: a character stands for itself, and an
escape for the character that it names. `Decoded quote least` is the grammar in which an escape of
digits without braces has at least `least` of them. With four it is the one that is written down for
the language; reading goes by the one with a single digit, where an escape takes as many digits as
there are, up to four. The two differ on the bodies with a short escape and on no others
(`decoded_four_iff`).
-/

namespace MarkupScript

namespace StringLiteral

/-- The number that digits in base sixteen write. -/
def hexValue (ds : List Char) : Nat := Nat.ofDigits 16 (ds.map hexDigitValue).reverse

/-- The body of a string between quotes, and the text that it denotes. An escape of digits without
braces has from `least` to four digits, and fewer than four only where no further digit follows. -/
inductive Decoded (quote : Char) (least : Nat) : List Char → List Char → Prop
  | nil : Decoded quote least [] []
  | plain {c : Char} {cs text : List Char} :
      c ≠ quote → c ≠ '\\' → c ≠ '\n' → c ≠ '\r' → Decoded quote least cs text →
      Decoded quote least (c :: cs) (c :: text)
  /-- A line that goes on. -/
  | lineFeed {cs text : List Char} :
      Decoded quote least cs text → Decoded quote least ('\\' :: '\n' :: cs) text
  | letter {c : Char} {cs text : List Char} :
      c ≠ '\n' → c ≠ 'u' → Decoded quote least cs text →
      Decoded quote least ('\\' :: c :: cs) (escaped c :: text)
  | digits {ds cs text : List Char} {c : Char} :
      ds.all isHexDigit = true → least ≤ ds.length → ds.length ≤ 4 →
      (ds.length < 4 → ∀ d ∈ cs.head?, isHexDigit d = false) → c.toNat = hexValue ds →
      Decoded quote least cs text → Decoded quote least ('\\' :: 'u' :: (ds ++ cs)) (c :: text)
  | braces {ds cs text : List Char} {c : Char} :
      ds.all isHexDigit = true → ds ≠ [] → c.toNat = hexValue ds → Decoded quote least cs text →
      Decoded quote least ('\\' :: 'u' :: '{' :: (ds ++ '}' :: cs)) (c :: text)

/-- Whether a body has an escape of fewer than four digits without braces. -/
def hasShortEscape : List Char → Bool
  | '\\' :: 'u' :: cs =>
    cs.head? != some '{' && decide (((cs.take 4).takeWhile isHexDigit).length < 4) ||
      hasShortEscape cs
  | '\\' :: _ :: cs => hasShortEscape cs
  | _ :: cs => hasShortEscape cs
  | [] => false

variable {quote : Char} {least : Nat}

/-! ### The character that digits name -/

theorem hexValue_eq_foldl (ds : List Char) :
    hexValue ds = ds.foldl (fun n d => 16 * n + hexDigitValue d) 0 := by
  rw [hexValue, Nat.ofDigits_eq_foldr, List.foldr_reverse, List.foldl_map]
  simp only [Nat.cast_id, Nat.add_comm]

theorem namedChar?_eq_some_iff {ds : List Char} {c : Char} :
    namedChar? ds = some c ↔ ds ≠ [] ∧ c.toNat = hexValue ds := by
  rw [namedChar?, hexValue_eq_foldl]
  generalize ds.foldl (fun n d => 16 * n + hexDigitValue d) 0 = n
  split
  · next h =>
    rw [Option.some.injEq]
    constructor
    · rintro rfl
      exact ⟨h.1, by rw [Char.toNat_ofNat, if_pos h.2]⟩
    · rintro ⟨-, rfl⟩
      exact Char.ofNat_toNat c
  · next h =>
    constructor
    · intro hc
      cases hc
    · intro hc
      refine absurd ⟨hc.1, ?_⟩ h
      rw [← hc.2]
      exact c.valid

theorem ne_of_isHexDigit {c d : Char} (hc : isHexDigit c = true) (hd : isHexDigit d = false) :
    c ≠ d := by
  rintro rfl
  exact absurd hc (by simp [hd])

/-! ### The end of a body -/

/-- A body that goes on to the quote behind it, and no further. -/
def IsBody (quote : Char) (body : List Char) : Prop :=
  splitBody quote (body ++ [quote]) = (body, [quote])

theorem isBody_nil : IsBody quote [] := by
  simp [IsBody, splitBody]

theorem not_isBody_backslash : ¬ IsBody quote ['\\'] := by
  simp [IsBody, splitBody]

theorem isBody_escape {c : Char} {cs : List Char} :
    IsBody quote ('\\' :: c :: cs) ↔ IsBody quote cs := by
  simp [IsBody, splitBody, Prod.ext_iff]

theorem isBody_plain {c : Char} (hc : c ≠ '\\') {cs : List Char} :
    IsBody quote (c :: cs) ↔ c ≠ quote ∧ c ≠ '\n' ∧ c ≠ '\r' ∧ IsBody quote cs := by
  by_cases hstop : c = quote ∨ c = '\n' ∨ c = '\r'
  · have hsplit : splitBody quote (c :: (cs ++ [quote])) = ([], c :: (cs ++ [quote])) := by
      rw [splitBody]
      · simp [hstop]
      · rintro d ds rfl
        exact absurd rfl hc
    constructor
    · intro h
      rw [IsBody, List.cons_append, hsplit] at h
      cases h
    · rintro ⟨hquote, hfeed, hreturn, -⟩
      rcases hstop with h | h | h <;> contradiction
  · rw [not_or, not_or] at hstop
    rw [IsBody, List.cons_append, splitBody_plain ⟨hstop.1, hc, hstop.2⟩]
    simp [IsBody, Prod.ext_iff, hstop]

/-- What digits leave of a body is a body. -/
theorem IsBody.of_append {ds cs : List Char} (hds : '\\' ∉ ds) (h : IsBody quote (ds ++ cs)) :
    IsBody quote cs := by
  induction ds with
  | nil => exact h
  | cons d ds ih =>
    rw [List.mem_cons, not_or] at hds
    exact ih hds.2 ((isBody_plain (Ne.symm hds.1)).mp h).2.2.2

theorem isBody_of_splitBody {cs body r : List Char} (h : splitBody quote cs = (body, quote :: r)) :
    IsBody quote body := by
  fun_induction splitBody quote cs generalizing body with
  | case1 => cases h
  | case2 c cs ih =>
    obtain ⟨rfl, hrest⟩ := Prod.mk.inj h
    exact isBody_escape.mpr (ih (Prod.ext rfl hrest))
  | case3 c cs _ _ =>
    obtain ⟨rfl, -⟩ := Prod.mk.inj h
    exact isBody_nil
  | case4 c cs hlone hgoes ih =>
    obtain ⟨rfl, hrest⟩ := Prod.mk.inj h
    rw [not_or, not_or] at hgoes
    have hc : c ≠ '\\' := by
      rintro rfl
      cases cs with
      | nil => cases hrest
      | cons d ds => exact hlone d ds rfl rfl
    exact (isBody_plain hc).mpr ⟨hgoes.1, hgoes.2.1, hgoes.2.2, ih (Prod.ext rfl hrest)⟩

/-! ### Reading goes by the grammar -/

theorem takeWhile_digits {ds cs : List Char} (hds : ds.all isHexDigit = true) (hlen : ds.length ≤ 4)
    (hend : ds.length < 4 → ∀ d ∈ cs.head?, isHexDigit d = false) :
    ((ds ++ cs).take 4).takeWhile isHexDigit = ds := by
  rw [List.take_append, List.take_of_length_le hlen]
  refine takeWhile_append_of_all hds fun d hd => ?_
  rw [List.head?_take] at hd
  split at hd
  · cases hd
  · exact hend (by omega) d hd

/-- Where a run of digits ends, no digit follows. -/
theorem not_isHexDigit_behind {cs : List Char} {d : Char}
    (h : d ∈ (cs.drop (cs.takeWhile isHexDigit).length).head?) : isHexDigit d = false := by
  have hdrop : cs.drop (cs.takeWhile isHexDigit).length = cs.dropWhile isHexDigit := by
    have hleft : (cs.takeWhile isHexDigit ++ cs.dropWhile isHexDigit).drop
        (cs.takeWhile isHexDigit).length = cs.dropWhile isHexDigit := List.drop_left
    rwa [List.takeWhile_append_dropWhile] at hleft
  have hend := List.head?_dropWhile_not isHexDigit cs
  rw [hdrop] at h
  rw [h] at hend
  exact hend

theorem backslash_notMem {ds : List Char} (hds : ds.all isHexDigit = true) : '\\' ∉ ds :=
  fun h => absurd (List.all_eq_true.mp hds _ h) (by decide)

/-- What is read behind `\u`: digits, or digits between braces. -/
theorem decodeUnicode_eq_ok {p : Place} {cs : List Char} {c : Char} {size : Nat}
    (h : decodeUnicode p cs = .ok (c, size)) :
    ∃ ds r, ds.all isHexDigit = true ∧ ds ≠ [] ∧ c.toNat = hexValue ds ∧ cs.drop size = r ∧
      (cs = ds ++ r ∧ ds.length ≤ 4 ∧ (ds.length < 4 → ∀ d ∈ r.head?, isHexDigit d = false) ∨
        cs = '{' :: (ds ++ '}' :: r)) := by
  have hnamed {ds : List Char} {n : Nat} (h : decodeUnicode.named p ds n = .ok (c, size)) :
      ds ≠ [] ∧ c.toNat = hexValue ds ∧ size = n := by
    unfold decodeUnicode.named at h
    split at h
    · next hc =>
      cases h
      exact ⟨(namedChar?_eq_some_iff.mp hc).1, (namedChar?_eq_some_iff.mp hc).2, rfl⟩
    · cases h
  unfold decodeUnicode at h
  split at h
  · next cs =>
    dsimp only at h
    split at h
    · next hclose =>
      obtain ⟨hne, hc, rfl⟩ := hnamed h
      have hsplit : cs = cs.takeWhile isHexDigit ++ cs.drop (cs.takeWhile isHexDigit).length :=
        Eq.symm <| List.prefix_iff_eq_append.mp <| List.takeWhile_prefix _
      refine ⟨_, _, List.all_takeWhile, hne, hc, rfl, .inr ?_⟩
      generalize cs.takeWhile isHexDigit = ds at hclose hsplit ⊢
      cases hrest : cs.drop ds.length with
      | nil =>
        rw [hrest] at hclose
        cases hclose
      | cons d r =>
        rw [hrest] at hclose hsplit
        cases hclose
        rw [hsplit]
        simp [← List.drop_drop]
    · cases h
  · obtain ⟨hne, hc, rfl⟩ := hnamed h
    have hdigits : (cs.take 4).takeWhile isHexDigit <+: cs.take 4 := List.takeWhile_prefix _
    have hsplit : (cs.take 4).takeWhile isHexDigit ++ cs.drop ((cs.take 4).takeWhile isHexDigit).length
        = cs :=
      List.prefix_iff_eq_append.mp (hdigits.trans (List.take_prefix 4 cs))
    have hlen : ((cs.take 4).takeWhile isHexDigit).length ≤ 4 :=
      Nat.le_trans hdigits.length_le (List.length_take_le 4 cs)
    refine ⟨_, _, List.all_takeWhile, hne, hc, rfl, .inl ⟨hsplit.symm, hlen, fun hshort d hd => ?_⟩⟩
    have hhead : d ∈ ((cs.take 4).drop ((cs.take 4).takeWhile isHexDigit).length).head? := by
      rw [List.drop_take, List.head?_take, if_neg (by omega)]
      exact hd
    exact not_isHexDigit_behind hhead

theorem decoded_of_decode {p stop : Place} {body text : List Char} (hbody : IsBody quote body)
    (h : decode p body = .ok (text, stop)) : Decoded quote 1 body text := by
  fun_induction decode p body generalizing text with
  | case1 =>
    cases h
    exact .nil
  | case2 => exact absurd hbody not_isBody_backslash
  | case3 p cs ih => exact .lineFeed (ih (isBody_escape.mp hbody) h)
  | case4 p cs ih =>
    obtain ⟨⟨c, size⟩, hc, h⟩ := Except.bind_eq_ok.mp h
    obtain ⟨⟨rest, stop'⟩, hrest, h⟩ := Except.bind_eq_ok.mp h
    cases h
    obtain ⟨ds, r, hds, hne, hvalue, rfl, hform⟩ := decodeUnicode_eq_ok hc
    have hback := backslash_notMem hds
    rw [isBody_escape] at hbody
    have hpos := List.length_pos_iff.mpr hne
    rcases hform with ⟨hcs, hlen, hend⟩ | hcs
    · have hr : IsBody quote (cs.drop size) := .of_append hback (hcs ▸ hbody)
      have := Decoded.digits hds hpos hlen hend hvalue (ih size hr hrest)
      rwa [← hcs] at this
    · have hr : IsBody quote (cs.drop size) := by
        rw [hcs, isBody_plain (by decide)] at hbody
        exact ((isBody_plain (by decide)).mp (hbody.2.2.2.of_append hback)).2.2.2
      have := Decoded.braces hds hne hvalue (ih size hr hrest)
      rwa [← hcs] at this
  | case5 p c cs hline hu ih =>
    obtain ⟨⟨rest, stop'⟩, hrest, h⟩ := Except.bind_eq_ok.mp h
    cases h
    exact .letter hline hu (ih (isBody_escape.mp hbody) hrest)
  | case6 p c cs hlone hline hu hescape ih =>
    obtain ⟨⟨rest, stop'⟩, hrest, h⟩ := Except.bind_eq_ok.mp h
    cases h
    have hc : c ≠ '\\' := by
      rintro rfl
      cases cs with
      | nil => exact hlone rfl rfl
      | cons d ds => exact hescape d ds rfl rfl
    obtain ⟨hquote, hfeed, hreturn, hcs⟩ := (isBody_plain hc).mp hbody
    exact .plain hquote hc hfeed hreturn (ih hcs hrest)

theorem decodeUnicode_digits {p : Place} {ds cs : List Char} {c : Char}
    (hds : ds.all isHexDigit = true) (hne : ds ≠ []) (hlen : ds.length ≤ 4)
    (hend : ds.length < 4 → ∀ d ∈ cs.head?, isHexDigit d = false) (hc : c.toNat = hexValue ds) :
    decodeUnicode p (ds ++ cs) = .ok (c, ds.length) := by
  have hdigits := takeWhile_digits hds hlen hend
  unfold decodeUnicode
  split
  · next r h =>
    cases ds with
    | nil => exact absurd rfl hne
    | cons d ds =>
      obtain ⟨rfl, -⟩ := List.cons.inj h
      exact absurd hds (by simp [isHexDigit])
  · simp only [hdigits, decodeUnicode.named, namedChar?_eq_some_iff.mpr ⟨hne, hc⟩]

theorem decodeUnicode_braces {p : Place} {ds cs : List Char} {c : Char}
    (hds : ds.all isHexDigit = true) (hne : ds ≠ []) (hc : c.toNat = hexValue ds) :
    decodeUnicode p ('{' :: (ds ++ '}' :: cs)) = .ok (c, ds.length + 2) := by
  have hclose : ∀ d ∈ ('}' :: cs).head?, isHexDigit d = false := by
    rintro d ⟨⟩
    decide
  have hdigits : (ds ++ '}' :: cs).takeWhile isHexDigit = ds := takeWhile_append_of_all hds hclose
  simp [decodeUnicode, hdigits, decodeUnicode.named, namedChar?_eq_some_iff.mpr ⟨hne, hc⟩]

theorem Decoded.decode {body text : List Char} (h : Decoded quote 1 body text) (p : Place) :
    ∃ stop, StringLiteral.decode p body = .ok (text, stop) := by
  induction h generalizing p with
  | nil => exact ⟨p, by rw [StringLiteral.decode]⟩
  | plain _ hback _ _ _ ih =>
    obtain ⟨stop, hstop⟩ := ih (p.right 1)
    refine ⟨stop, ?_⟩
    rw [StringLiteral.decode]
    · rw [hstop]
      rfl
    all_goals intros; simp_all
  | lineFeed _ ih =>
    obtain ⟨stop, hstop⟩ := ih ((p.right 1).nextLine 1)
    exact ⟨stop, by rw [StringLiteral.decode, hstop]⟩
  | letter hline hu _ ih =>
    obtain ⟨stop, hstop⟩ := ih (p.right 2)
    refine ⟨stop, ?_⟩
    rw [StringLiteral.decode]
    · rw [hstop]
      rfl
    all_goals intros; simp_all
  | @digits ds cs text c hds hpos hlen hend hc _ ih =>
    obtain ⟨stop, hstop⟩ := ih (p.right (2 + ds.length))
    refine ⟨stop, ?_⟩
    rw [StringLiteral.decode,
      decodeUnicode_digits hds (List.length_pos_iff.mp hpos) hlen hend hc]
    simp only [bind, Except.bind, List.drop_left, hstop]
    rfl
  | @braces ds cs text c hds hne hc _ ih =>
    obtain ⟨stop, hstop⟩ := ih (p.right (2 + (ds.length + 2)))
    have hdrop : ('{' :: (ds ++ '}' :: cs)).drop (ds.length + 2) = cs := by simp [← List.drop_drop]
    refine ⟨stop, ?_⟩
    rw [StringLiteral.decode, decodeUnicode_braces hds hne hc]
    simp only [bind, Except.bind, hdrop, hstop]
    rfl

/-- A body denotes one text at most. -/
theorem Decoded.unique {body text text' : List Char} (h : Decoded quote 1 body text)
    (h' : Decoded quote 1 body text') : text = text' := by
  obtain ⟨stop, hstop⟩ := h.decode .start
  obtain ⟨stop', hstop'⟩ := h'.decode .start
  rw [hstop] at hstop'
  cases hstop'
  rfl

/-! ### Short escapes -/

theorem hasShortEscape_plain {c : Char} (hc : c ≠ '\\') (cs : List Char) :
    hasShortEscape (c :: cs) = hasShortEscape cs := by
  rw [hasShortEscape]
  all_goals intros; simp_all

theorem hasShortEscape_append {ds : List Char} (hds : '\\' ∉ ds) (cs : List Char) :
    hasShortEscape (ds ++ cs) = hasShortEscape cs := by
  induction ds with
  | nil => rfl
  | cons d ds ih =>
    rw [List.mem_cons, not_or] at hds
    rw [List.cons_append, hasShortEscape_plain (Ne.symm hds.1), ih hds.2]

theorem hasShortEscape_letter {c : Char} (hc : c ≠ 'u') (cs : List Char) :
    hasShortEscape ('\\' :: c :: cs) = hasShortEscape cs := by
  rw [hasShortEscape]
  intro
  simp_all

theorem hasShortEscape_digits {ds cs : List Char} (hds : ds.all isHexDigit = true) (hne : ds ≠ [])
    (hlen : ds.length ≤ 4) (hend : ds.length < 4 → ∀ d ∈ cs.head?, isHexDigit d = false) :
    hasShortEscape ('\\' :: 'u' :: (ds ++ cs)) =
      (decide (ds.length < 4) || hasShortEscape cs) := by
  have hhead : ((ds ++ cs).head? != some '{') = true := by
    cases ds with
    | nil => exact absurd rfl hne
    | cons d ds =>
      have hd : isHexDigit d = true := List.all_eq_true.mp hds d (by simp)
      simpa using ne_of_isHexDigit hd (by decide)
  rw [hasShortEscape, takeWhile_digits hds hlen hend, hhead, Bool.true_and,
    hasShortEscape_append (backslash_notMem hds)]

theorem hasShortEscape_braces {ds : List Char} (hds : ds.all isHexDigit = true) (cs : List Char) :
    hasShortEscape ('\\' :: 'u' :: '{' :: (ds ++ '}' :: cs)) = hasShortEscape cs := by
  rw [hasShortEscape, hasShortEscape_plain (by decide), hasShortEscape_append (backslash_notMem hds),
    hasShortEscape_plain (by decide)]
  simp

/-- The two grammars differ on bodies with a short escape only. -/
theorem decoded_four_iff {body text : List Char} :
    Decoded quote 4 body text ↔ Decoded quote 1 body text ∧ hasShortEscape body = false := by
  constructor
  · intro h
    induction h with
    | nil => exact ⟨.nil, rfl⟩
    | plain hquote hback hfeed hreturn _ ih =>
      exact ⟨.plain hquote hback hfeed hreturn ih.1, by rw [hasShortEscape_plain hback, ih.2]⟩
    | lineFeed _ ih => exact ⟨.lineFeed ih.1, by rw [hasShortEscape_letter (by decide), ih.2]⟩
    | letter hline hu _ ih =>
      exact ⟨.letter hline hu ih.1, by rw [hasShortEscape_letter hu, ih.2]⟩
    | @digits ds cs text c hds hfour hlen hend hc _ ih =>
      have hne : ds ≠ [] := List.length_pos_iff.mp (by omega)
      refine ⟨.digits hds (by omega) hlen hend hc ih.1, ?_⟩
      rw [hasShortEscape_digits hds hne hlen hend, ih.2]
      simpa using hfour
    | braces hds hne hc _ ih =>
      exact ⟨.braces hds hne hc ih.1, by rw [hasShortEscape_braces hds, ih.2]⟩
  · rintro ⟨h, hshort⟩
    induction h with
    | nil => exact .nil
    | plain hquote hback hfeed hreturn _ ih =>
      rw [hasShortEscape_plain hback] at hshort
      exact .plain hquote hback hfeed hreturn (ih hshort)
    | lineFeed _ ih =>
      rw [hasShortEscape_letter (by decide)] at hshort
      exact .lineFeed (ih hshort)
    | letter hline hu _ ih =>
      rw [hasShortEscape_letter hu] at hshort
      exact .letter hline hu (ih hshort)
    | @digits ds cs text c hds hpos hlen hend hc _ ih =>
      rw [hasShortEscape_digits hds (List.length_pos_iff.mp hpos) hlen hend, Bool.or_eq_false_iff,
        decide_eq_false_iff_not] at hshort
      exact .digits hds (by omega) hlen hend hc (ih hshort.2)
    | braces hds hne hc _ ih =>
      rw [hasShortEscape_braces hds] at hshort
      exact .braces hds hne hc (ih hshort)

end StringLiteral

/-! ### The tokens of a source -/

open StringLiteral in
/-- A string is read from quotes with a body between them, and is what decoding the body gives. -/
theorem Scanner.exists_body {s s' : Scanner} {v : String} {text : List Char}
    (h : s.token = .ok s') (hreads : s.Reads (.string v) text s') :
    ∃ quote body, (quote = '"' ∨ quote = '\'') ∧ text = quote :: (body ++ [quote]) ∧
      IsBody quote body ∧ ∃ p stop, decode p body = .ok (v.toList, stop) := by
  obtain ⟨quote, cs, hquote, hrest⟩ :
      ∃ quote cs, (quote = '"' ∨ quote = '\'') ∧ s.rest = quote :: cs := by
    have hspells := hreads.spells
    cases hspells with
    | string hq _ => exact ⟨_, _, hq, hreads.rest⟩
  have hstring : s.token = s.string quote := by
    have hnot : isNameStart quote = false ∧ quote ≠ '>' ∧ quote ≠ '<' ∧ quote ≠ '@' := by
      rcases hquote with rfl | rfl <;> decide
    rw [token_eq_script hrest (fun _ => ⟨hnot.1, hnot.2.1⟩) (fun _ hc => absurd hc hnot.2.2.1)
      hnot.2.2.2]
    exact if_pos hquote
  rw [hstring] at h
  obtain ⟨⟨value, stop⟩, hvalue, hemit⟩ := Except.bind_eq_ok.mp h
  rw [hrest, List.drop_one, List.tail_cons] at hvalue hemit
  have hcs := splitBody_append quote cs
  dsimp only at hemit
  split at hemit
  · next c r hbehind =>
    split at hemit
    · next hc =>
      subst hc
      have hkind := hreads.tokens
      have hbody := hreads.rest
      cases hemit
      rw [hbehind] at hcs
      refine ⟨c, (splitBody c cs).1, hquote, ?_, isBody_of_splitBody (Prod.ext rfl hbehind),
        s.place.right 1, stop, ?_⟩
      · have hsame : text ++ r = (c :: ((splitBody c cs).1 ++ [c])) ++ r := by
          rw [← show s.rest = text ++ r from hbody, hrest]
          simp [hcs]
        exact List.append_cancel_right hsame
      · have hv : String.ofList value = v :=
          Kind.string.inj (congrArg Token.kind (List.cons.inj hkind).1)
        rw [← hv, String.toList_ofList]
        exact hvalue
    · cases hemit
  · cases hemit

open StringLiteral in
/-- **Escapes in strings.** A string token is written between quotes, and its value is the one text
that the body between them denotes by the grammar of escapes: characters stand for themselves, letters
behind a backslash for their controls, digits behind `\u` for the character with that number, and a
backslash in front of a line feed for nothing. Without braces an escape takes up to four digits, and
not always four: the body goes by the grammar with exactly four digits unless it has an escape with
fewer. -/
theorem tokenize_escapes {source : String} {tokens : List Token} {t : Token} {v : String}
    (h : tokenize source = .ok tokens) (ht : t ∈ tokens) (hv : t.kind = .string v) :
    ∃ quote body, (quote = '"' ∨ quote = '\'') ∧
      source.toList.extract t.span.start t.span.stop = quote :: (body ++ [quote]) ∧
      (∀ text, Decoded quote 1 body text ↔ text = v.toList) ∧
      ∀ text, Decoded quote 4 body text ↔ text = v.toList ∧ hasShortEscape body = false := by
  obtain ⟨ts, s, s', -, htrace, -, -, rfl⟩ := exists_trace_of_tokenize h
  have hts : t ∈ ts := by
    rcases List.mem_append.mp ht with ht | ht
    · exact ht
    · rw [List.mem_singleton.mp ht] at hv
      cases hv
  have hstart : (Scanner.start source.toList).Rests source.toList 0 := ⟨rfl, rfl, rfl⟩
  obtain ⟨s₁, s₂, text, htoken, hreads, htext, hrest⟩ := htrace.exists_token hstart hts
  have hlength : t.span.stop = t.span.start + text.length := by
    rw [htext]
    rfl
  rw [hv] at hreads
  obtain ⟨quote, body, hquote, rfl, hbody, p, stop, hdecode⟩ := Scanner.exists_body htoken hreads
  have hvalue := decoded_of_decode hbody hdecode
  have hiff (text : List Char) : Decoded quote 1 body text ↔ text = v.toList := by
    refine ⟨fun h => h.unique hvalue, ?_⟩
    rintro rfl
    exact hvalue
  refine ⟨quote, body, hquote, ?_, hiff, fun text => ?_⟩
  · rw [List.extract_eq_take_drop, ← hrest, hreads.rest, hlength, Nat.add_sub_cancel_left,
      List.take_left]
  · rw [decoded_four_iff, hiff]

/-- Escapes of every form, and a line that goes on. -/
def escapesText : String := "'\\u0041\\u\x7b1f600\x7d\\n\\'\\\n\\\\u'"

theorem tokenize_escapesText :
    let t : Token := ⟨.string "A😀\n'\\u", ⟨0, 26, 1, 1⟩, false⟩
    tokenize escapesText = .ok [t, ⟨.endOfInput, ⟨26, 26, 2, 5⟩, false⟩] ∧
      ∃ quote body, (quote = '"' ∨ quote = '\'') ∧
        escapesText.toList.extract 0 26 = quote :: (body ++ [quote]) ∧
        (∀ text, StringLiteral.Decoded quote 1 body text ↔ text = "A😀\n'\\u".toList) ∧
        ∀ text, StringLiteral.Decoded quote 4 body text ↔
          text = "A😀\n'\\u".toList ∧ StringLiteral.hasShortEscape body = false := by
  intro t
  have htokens : tokenize escapesText = .ok [t, ⟨.endOfInput, ⟨26, 26, 2, 5⟩, false⟩] := by
    decide +kernel
  exact ⟨htokens, tokenize_escapes htokens List.mem_cons_self rfl⟩

/-- An escape of two digits. -/
def shortEscapeText : String := "\"\\u41\""

/-- A string is read whose body is not one by the grammar with four digits. -/
theorem tokenize_shortEscapeText :
    let t : Token := ⟨.string "A", ⟨0, 6, 1, 1⟩, false⟩
    tokenize shortEscapeText = .ok [t, ⟨.endOfInput, ⟨6, 6, 1, 7⟩, false⟩] ∧
      ∀ quote body text, shortEscapeText.toList.extract 0 6 = quote :: (body ++ [quote]) →
        ¬ StringLiteral.Decoded quote 4 body text := by
  intro t
  refine ⟨by decide +kernel, fun quote body text hbody h => ?_⟩
  have hshort := (StringLiteral.decoded_four_iff.mp h).2
  obtain ⟨-, hbody⟩ := List.cons.inj (show '"' :: ("\\u41".toList ++ ['"']) = _ from hbody)
  obtain ⟨rfl, -⟩ := List.append_inj' hbody rfl
  exact absurd hshort (by decide +kernel)

end MarkupScript
