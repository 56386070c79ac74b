import Mathlib.Data.List.Forall2
import MarkupScript.Json.Basic
import MarkupScript.Proofs.Json.Numbers
import MarkupScript.Proofs.Token.Strings

/-!
# The text of a document

A reader of a document looks up the members of an object by their keys, in whatever order they stand.
`Json.Same` says that two documents are the same for every reader. The text of a document shows where
each of its parts ends, so documents with the same text are the same.
-/

namespace MarkupScript

namespace Json

/-- Whether a document has no parts. -/
def isScalar : Json → Bool
  | array _ | object _ => false
  | _ => true

/-- Whether two documents are the same for a reader: objects have the same keys with the same values,
arrays the same items in the same order, and all else the same text. -/
inductive Same : Json → Json → Prop
  | scalar {a b : Json} : a.isScalar = true → b.isScalar = true → pretty 0 a = pretty 0 b → Same a b
  | array {as bs : List Json} : List.Forall₂ Same as bs → Same (array as) (array bs)
  | object {ms ns : List (String × Json)} :
    (∀ key, Option.Rel Same (ms.lookup key) (ns.lookup key)) → Same (object ms) (object ns)

/-! ### Induction over documents -/

section

variable {P : Json → Prop}

mutual

/-- What holds of documents without parts, and of all others if it holds of their parts, holds of all
documents. -/
theorem parts_induction (hscalar : ∀ a, a.isScalar = true → P a)
    (harray : ∀ as, (∀ a ∈ as, P a) → P (array as))
    (hobject : ∀ ms, (∀ m ∈ ms, P m.2) → P (object ms)) : ∀ a, P a
  | null => hscalar _ rfl
  | bool _ => hscalar _ rfl
  | natural _ => hscalar _ rfl
  | number _ => hscalar _ rfl
  | string _ => hscalar _ rfl
  | array items => harray _ (items_induction hscalar harray hobject items)
  | object members => hobject _ (members_induction hscalar harray hobject members)
termination_by structural a => a

theorem items_induction (hscalar : ∀ a, a.isScalar = true → P a)
    (harray : ∀ as, (∀ a ∈ as, P a) → P (array as))
    (hobject : ∀ ms, (∀ m ∈ ms, P m.2) → P (object ms)) : ∀ as : List Json, ∀ a ∈ as, P a
  | [], _, hm => nomatch hm
  | a :: as, x, hm => by
    cases hm with
    | head => exact parts_induction hscalar harray hobject a
    | tail _ hm => exact items_induction hscalar harray hobject as x hm
termination_by structural as => as

theorem members_induction (hscalar : ∀ a, a.isScalar = true → P a)
    (harray : ∀ as, (∀ a ∈ as, P a) → P (array as))
    (hobject : ∀ ms, (∀ m ∈ ms, P m.2) → P (object ms)) :
    ∀ ms : List (String × Json), ∀ m ∈ ms, P m.2
  | [], _, hm => nomatch hm
  | (_, a) :: ms, x, hm => by
    cases hm with
    | head => exact parts_induction hscalar harray hobject a
    | tail _ hm => exact members_induction hscalar harray hobject ms x hm
termination_by structural ms => ms

end

end

/-! ### Scalars -/

theorem pretty_natural (level value : Nat) : pretty level (natural value) = value.repr := rfl

theorem pretty_number (level : Nat) (value : Double) :
    pretty level (number value) = value.json?.getD "null" := rfl

theorem pretty_string (level : Nat) (value : String) :
    pretty level (string value) = stringText value := rfl

/-- What has no parts is written the same at every level. -/
theorem pretty_scalar {a : Json} (h : a.isScalar = true) (level : Nat) :
    pretty level a = pretty 0 a := by
  cases a with
  | array => cases h
  | object => cases h
  | _ => rfl

/-! ### Strings -/

/-- A control is written as four digits. -/
theorem toList_control : ∀ n < 0x20,
    ("\\u00" ++ (if n < 0x10 then "0" else "") ++ Text.hexadecimal n).toList =
      '\\' :: 'u' :: Text.fourDigits n := by
  decide +kernel

theorem denotes_escapeChar (c : Char) : StringLiteral.Denotes (escapeChar c).toList c := by
  unfold escapeChar
  split
  case h_8 hquote hback hline hreturn _ _ _ =>
    split
    · next hcontrol =>
      obtain ⟨hlen, hhex, hname⟩ := StringLiteral.denotes_fourDigits c.toNat (by omega)
      rw [toList_control c.toNat hcontrol]
      exact .unicode hlen hhex (by rw [hname, Char.ofNat_toNat])
    · rw [show c.toString.toList = [c] from String.toList_singleton c]
      exact .plain hquote hback hline hreturn
  all_goals exact .escape (by decide) (by decide)

theorem toList_stringText (s : String) :
    (stringText s).toList = '"' :: (s.toList.flatMap (fun c => (escapeChar c).toList) ++ ['"']) := by
  simp [stringText, List.flatMap_map]

/-- The text of a string shows the string and where it ends. -/
theorem stringText_inj {s t : String} {x y : List Char}
    (h : (stringText s).toList ++ x = (stringText t).toList ++ y) : s = t ∧ x = y := by
  have hbody (v : String) (r : List Char) : StringLiteral.splitBody '"'
      (((stringText v).toList ++ r).drop 1) =
        (v.toList.flatMap (fun c => (escapeChar c).toList), '"' :: r) := by
    rw [toList_stringText, ← StringLiteral.splitBody_flatMap denotes_escapeChar]
    simp
  have hdecode (v : String) := StringLiteral.decode_flatMap denotes_escapeChar .start v.toList
  have hsplit := (hbody s x).symm.trans ((congrArg _ (congrArg _ h)).trans (hbody t y))
  obtain ⟨hcodes, hrest⟩ := Prod.mk.inj hsplit
  refine ⟨?_, (List.cons.inj hrest).2⟩
  have hvalue := (hdecode s).symm.trans (hcodes ▸ hdecode t)
  exact String.toList_inj.mp (Prod.mk.inj (Except.ok.inj hvalue)).1

/-! ### Words -/

/-- The characters of numbers and of the words `null`, `true` and `false`. -/
def isWordChar (c : Char) : Bool := c.isAlphanum || c == '-' || c == '+' || c == '.'

theorem isWordChar_of_isDigit {c : Char} (h : c.isDigit = true) : isWordChar c = true := by
  simp [isWordChar, Char.isAlphanum, h]

theorem all_isWordChar_of_isDigit {ds : List Char} (h : ds.all Char.isDigit = true) :
    ds.all isWordChar = true :=
  List.all_eq_true.mpr fun c hc => isWordChar_of_isDigit (List.all_eq_true.mp h c hc)

theorem all_isWordChar_numeral {w f : List Char} (h : IsNumeral w f) :
    (numeral w f).all isWordChar = true := by
  have hw := all_isWordChar_of_isDigit h.whole
  have hf := all_isWordChar_of_isDigit h.fraction
  unfold numeral
  split
  · exact hw
  · rw [List.all_append, List.all_cons, hw, hf]
    rfl

theorem all_isWordChar_power {r : List Char} {e : Int} (h : IsPower r e) :
    r.all isWordChar = true := by
  have hdigits {ds : List Char} {n : Int} (hn : Decimal.readExponent?.digits? ds = some n) :
      ds.all isWordChar = true := by
    unfold Decimal.readExponent?.digits? at hn
    split at hn
    · next hds => exact all_isWordChar_of_isDigit hds.2
    · cases hn
  obtain ⟨rfl, -⟩ | ⟨ds, rfl, he⟩ := h
  · rfl
  · unfold Decimal.readExponent? at he
    split at he
    · simpa [isWordChar] using hdigits he
    · obtain ⟨n, hn, -⟩ := Option.map_eq_some_iff.mp he
      simpa [isWordChar] using hdigits hn
    · simpa [isWordChar] using hdigits he

theorem all_isWordChar_json {x : Double} {text : String} (h : x.json? = some text) :
    text.toList ≠ [] ∧ text.toList.all isWordChar = true := by
  cases x with
  | nan => cases h
  | infinite negative => cases h
  | finite negative m =>
    obtain ⟨w, f, r, e, hnumeral, htext, hpower, -⟩ :=
      (m.shortest Double.jsonTie).documentText_eq_numeral
    obtain ⟨c, cs, hcons, -⟩ := hnumeral.exists_cons
    obtain rfl : signText negative ++ (m.shortest Double.jsonTie).documentText = text :=
      Option.some.inj h
    have hsign : (signText negative).toList.all isWordChar = true := by cases negative <;> rfl
    rw [String.toList_append, htext]
    refine ⟨by simp [hcons], ?_⟩
    rw [List.all_append, List.all_append, hsign, all_isWordChar_numeral hnumeral,
      all_isWordChar_power hpower]
    rfl

/-- The mark that a document opens with, if it is no word. -/
def opening : Json → Option Char
  | string _ => some '"'
  | array _ => some '['
  | object _ => some '{'
  | _ => none

theorem isScalar_of_opening {a : Json} (h : a.opening = none) : a.isScalar = true := by
  cases a <;> first | rfl | cases h

theorem word_of_opening {a : Json} (h : a.opening = none) (level : Nat) :
    (pretty level a).toList ≠ [] ∧ (pretty level a).toList.all isWordChar = true := by
  cases a with
  | null => exact show "null".toList ≠ [] ∧ "null".toList.all isWordChar = true by decide
  | bool value =>
    cases value with
    | false => exact show "false".toList ≠ [] ∧ "false".toList.all isWordChar = true by decide
    | true => exact show "true".toList ≠ [] ∧ "true".toList.all isWordChar = true by decide
  | natural value =>
    rw [pretty_natural, Nat.toList_repr]
    exact ⟨Nat.toDigits_ne_nil, all_isWordChar_of_isDigit (Decimal.all_isDigit_toDigits value)⟩
  | number value =>
    rw [pretty_number]
    cases hvalue : value.json? with
    | none => decide
    | some text => exact all_isWordChar_json hvalue
  | _ => cases h

/-! ### Lines -/

/-- Parts, each behind a comma and a line end. -/
def row (level : Nat) (text : α → List Char) (as : List α) : List Char :=
  as.flatMap fun a => ',' :: ((newLine level).toList ++ text a)

/-- What stands between brackets: each part on a line of its own, with commas between them. -/
def lines (level : Nat) (text : α → List Char) (as : List α) : List Char :=
  if as.isEmpty then [] else (row (level + 1) text as).tail ++ (newLine level).toList

/-- The text of a member: its key and its value. -/
def memberText (level : Nat) (m : String × Json) : List Char :=
  (stringText m.1).toList ++ ':' :: ' ' :: (pretty level m.2).toList

theorem toList_prettyItems (level : Nat) (as : List Json) :
    (prettyItems level as).toList = row level (fun a => (pretty level a).toList) as := by
  induction as with
  | nil => rfl
  | cons a as ih =>
    have hcons : prettyItems level (a :: as) =
        "," ++ newLine level ++ pretty level a ++ prettyItems level as := rfl
    simp [hcons, row, ih]

theorem toList_prettyMembers (level : Nat) (ms : List (String × Json)) :
    (prettyMembers level ms).toList = row level (memberText level) ms := by
  induction ms with
  | nil => rfl
  | cons m ms ih =>
    obtain ⟨key, value⟩ := m
    have hcons : prettyMembers level ((key, value) :: ms) = "," ++ newLine level ++ stringText key ++
        ": " ++ pretty level value ++ prettyMembers level ms := rfl
    simp [hcons, row, memberText, ih]

theorem toList_array (level : Nat) (as : List Json) :
    (pretty level (array as)).toList =
      '[' :: (lines level (fun a => (pretty (level + 1) a).toList) as ++ [']']) := by
  cases as with
  | nil =>
    have hnil : pretty level (array []) = "[]" := rfl
    simp [hnil, lines]
  | cons a as =>
    have hcons : pretty level (array (a :: as)) = "[" ++ newLine (level + 1) ++ pretty (level + 1) a ++
        prettyItems (level + 1) as ++ newLine level ++ "]" := rfl
    simp [hcons, lines, toList_prettyItems, row]

theorem toList_object (level : Nat) (ms : List (String × Json)) :
    (pretty level (object ms)).toList =
      '{' :: (lines level (memberText (level + 1)) ms ++ ['}']) := by
  obtain _ | ⟨⟨key, value⟩, ms⟩ := ms
  · have hnil : pretty level (object []) = "\x7b\x7d" := rfl
    simp [hnil, lines]
  · have hcons : pretty level (object ((key, value) :: ms)) = "\x7b" ++ newLine (level + 1) ++
        stringText key ++ ": " ++ pretty (level + 1) value ++ prettyMembers (level + 1) ms ++
        newLine level ++ "\x7d" := rfl
    simp [hcons, lines, toList_prettyMembers, row, memberText]

/-- What may stand behind a part of a document. -/
def Ends (x : List Char) : Prop := ∀ c ∈ x.head?, c = ',' ∨ c = '\n'

/-- The text of a part shows the part, up to `R`, and where it ends. -/
def Readable (text : α → List Char) (R : α → α → Prop) (a : α) : Prop :=
  ∀ b x y, Ends x → Ends y → text a ++ x = text b ++ y → R a b ∧ x = y

section

variable {text : α → List Char} {R : α → α → Prop} {level : Nat}

theorem row_cons (a : α) (as : List α) (x : List Char) : row level text (a :: as) ++ x =
    ',' :: ((newLine level).toList ++ (text a ++ (row level text as ++ x))) := by
  simp [row]

theorem ends_row (as : List α) {x : List Char} (hx : x.head? = some '\n') :
    Ends (row level text as ++ x) := by
  cases as with
  | nil =>
    intro c hc
    exact .inr (Option.some.inj (hc.symm.trans hx))
  | cons a as =>
    rw [row_cons]
    rintro c ⟨⟩
    exact .inl rfl

theorem row_inj {as : List α} (h : ∀ a ∈ as, Readable text R a) {bs : List α} {x y : List Char}
    (hx : x.head? = some '\n') (hy : y.head? = some '\n')
    (hrow : row level text as ++ x = row level text bs ++ y) : List.Forall₂ R as bs ∧ x = y := by
  induction as generalizing bs with
  | nil =>
    cases bs with
    | nil => exact ⟨.nil, hrow⟩
    | cons b bs =>
      rw [row_cons] at hrow
      rw [show x = _ from hrow] at hx
      cases hx
  | cons a as ih =>
    rw [row_cons] at hrow
    cases bs with
    | nil =>
      rw [show y = _ from hrow.symm] at hy
      cases hy
    | cons b bs =>
      rw [row_cons] at hrow
      have htext := List.append_cancel_left (List.cons.inj hrow).2
      obtain ⟨hab, hrest⟩ := h a List.mem_cons_self b _ _ (ends_row as hx) (ends_row bs hy) htext
      obtain ⟨hall, hxy⟩ := ih (fun c hc => h c (List.mem_cons_of_mem _ hc)) hrest
      exact ⟨.cons hab hall, hxy⟩

/-- If the text of every part shows where it ends, so does the text of a list between brackets. -/
theorem lines_inj {as : List α} (h : ∀ a ∈ as, Readable text R a) {bs : List α} {close : Char}
    (hclose : close ≠ '\n') {x y : List Char}
    (hlines : lines level text as ++ close :: x = lines level text bs ++ close :: y) :
    List.Forall₂ R as bs ∧ x = y := by
  have hhead (n : Nat) (cs : List Char) : ((newLine n).toList ++ cs).head? = some '\n' := by
    simp [newLine]
  have hlines_cons (a : α) (as : List α) (r : List Char) : lines level text (a :: as) ++ r =
      (newLine (level + 1)).toList ++ (text a ++ (row (level + 1) text as ++
        ((newLine level).toList ++ r))) := by
    simp [lines, row]
  have hempty (b : α) (bs : List α) (u v : List Char) :
      lines level text [] ++ close :: u ≠ lines level text (b :: bs) ++ close :: v := by
    rw [hlines_cons]
    intro hsame
    exact hclose (Option.some.inj ((congrArg List.head? hsame).trans (hhead _ _)))
  cases as with
  | nil =>
    cases bs with
    | nil => exact ⟨.nil, (List.cons.inj hlines).2⟩
    | cons b bs => exact absurd hlines (hempty b bs x y)
  | cons a as =>
    cases bs with
    | nil => exact absurd hlines.symm (hempty a as y x)
    | cons b bs =>
      have hrow : row (level + 1) text (a :: as) ++ ((newLine level).toList ++ close :: x) =
          row (level + 1) text (b :: bs) ++ ((newLine level).toList ++ close :: y) := by
        rw [row_cons, row_cons, ← hlines_cons, ← hlines_cons, hlines]
      obtain ⟨hall, hrest⟩ := row_inj h (hhead _ _) (hhead _ _) hrow
      exact ⟨hall, (List.cons.inj (List.append_cancel_left hrest)).2⟩

end

/-! ### Documents with the same text -/

theorem opening_eq (a : Json) (level : Nat) (x : List Char) :
    a.opening = ((pretty level a).toList ++ x).head?.filter (!isWordChar ·) := by
  cases hopening : a.opening with
  | none =>
    obtain ⟨hne, hword⟩ := word_of_opening hopening level
    obtain ⟨c, cs, hcs⟩ := List.exists_cons_of_ne_nil hne
    rw [hcs, List.all_cons, Bool.and_eq_true] at hword
    rw [hcs]
    exact (Option.filter_some_neg (by rw [hword.1]; rfl)).symm
  | some c =>
    cases a with
    | string s =>
      rw [pretty_string, toList_stringText]
      exact hopening.symm
    | array items =>
      rw [toList_array]
      exact hopening.symm
    | object members =>
      rw [toList_object]
      exact hopening.symm
    | _ => cases hopening

theorem opening_inj {a b : Json} {level : Nat} {x y : List Char}
    (h : (pretty level a).toList ++ x = (pretty level b).toList ++ y) : a.opening = b.opening := by
  rw [opening_eq a level x, h, ← opening_eq]

theorem readable_word {a : Json} (ha : a.opening = none) (level : Nat) :
    Readable (fun a => (pretty level a).toList) Same a := by
  intro b x y hx hy h
  have hb : b.opening = none := (opening_inj h).symm.trans ha
  have hends {z : List Char} (hz : Ends z) : ∀ c ∈ z.head?, isWordChar c = false := by
    intro c hc
    rcases hz c hc with rfl | rfl <;> rfl
  have hword := congrArg (List.takeWhile isWordChar) h
  rw [takeWhile_append_of_all (word_of_opening ha level).2 (hends hx),
    takeWhile_append_of_all (word_of_opening hb level).2 (hends hy)] at hword
  refine ⟨.scalar (isScalar_of_opening ha) (isScalar_of_opening hb) ?_, ?_⟩
  · rw [← pretty_scalar (isScalar_of_opening ha) level, ← pretty_scalar (isScalar_of_opening hb) level]
    exact String.toList_inj.mp hword
  · simp only at h
    rw [hword] at h
    exact List.append_cancel_left h

theorem readable_string (s : String) (level : Nat) :
    Readable (fun a => (pretty level a).toList) Same (string s) := by
  intro b x y hx hy h
  cases b with
  | string t =>
    simp only [pretty_string] at h
    obtain ⟨rfl, hxy⟩ := stringText_inj h
    exact ⟨.scalar rfl rfl rfl, hxy⟩
  | _ => cases opening_inj h

theorem readable_array {as : List Json} {level : Nat}
    (h : ∀ a ∈ as, Readable (fun a => (pretty (level + 1) a).toList) Same a) :
    Readable (fun a => (pretty level a).toList) Same (array as) := by
  intro b x y hx hy htext
  cases b with
  | array bs =>
    simp only [toList_array, List.cons_append, List.append_assoc, List.nil_append] at htext
    obtain ⟨hall, hxy⟩ := lines_inj h (by decide) (List.cons.inj htext).2
    exact ⟨.array hall, hxy⟩
  | _ => cases opening_inj htext

theorem readable_member {m : String × Json} {level : Nat}
    (h : Readable (fun a => (pretty level a).toList) Same m.2) :
    Readable (memberText level) (fun m n => m.1 = n.1 ∧ Same m.2 n.2) m := by
  intro n x y hx hy htext
  simp only [memberText, List.append_assoc, List.cons_append] at htext
  obtain ⟨hkey, hrest⟩ := stringText_inj htext
  obtain ⟨hvalue, hxy⟩ := h n.2 x y hx hy (List.cons.inj (List.cons.inj hrest).2).2
  exact ⟨⟨hkey, hvalue⟩, hxy⟩

theorem lookup_same {ms ns : List (String × Json)}
    (h : List.Forall₂ (fun m n => m.1 = n.1 ∧ Same m.2 n.2) ms ns) (key : String) :
    Option.Rel Same (ms.lookup key) (ns.lookup key) := by
  induction h with
  | nil => exact .none
  | @cons m n ms ns hmn _ ih =>
    obtain ⟨k, a⟩ := m
    obtain ⟨k', b⟩ := n
    obtain ⟨rfl, hab⟩ := hmn
    rw [List.lookup_cons, List.lookup_cons]
    cases key == k with
    | true => exact .some hab
    | false => exact ih

theorem readable_object {ms : List (String × Json)} {level : Nat}
    (h : ∀ m ∈ ms, Readable (fun a => (pretty (level + 1) a).toList) Same m.2) :
    Readable (fun a => (pretty level a).toList) Same (object ms) := by
  intro b x y hx hy htext
  cases b with
  | object ns =>
    simp only [toList_object, List.cons_append, List.append_assoc, List.nil_append] at htext
    obtain ⟨hall, hxy⟩ :=
      lines_inj (fun m hm => readable_member (h m hm)) (by decide) (List.cons.inj htext).2
    exact ⟨.object (lookup_same hall), hxy⟩
  | _ => cases opening_inj htext

theorem readable (a : Json) : ∀ level, Readable (fun a => (pretty level a).toList) Same a := by
  induction a using parts_induction with
  | hscalar a ha =>
    cases a with
    | string s => exact readable_string s
    | array => cases ha
    | object => cases ha
    | _ => exact readable_word rfl
  | harray as ih => exact fun level => readable_array fun a ha => ih a ha (level + 1)
  | hobject ms ih => exact fun level => readable_object fun m hm => ih m hm (level + 1)

/-- Documents with the same text are the same. -/
theorem same_of_pretty {a b : Json} {level : Nat} (h : pretty level a = pretty level b) :
    Same a b := by
  have hnil : Ends [] := by rintro c ⟨⟩
  have htext : (pretty level a).toList ++ [] = (pretty level b).toList ++ [] := by rw [h]
  exact (readable a level b [] [] hnil hnil htext).1

end Json

end MarkupScript
