import MarkupScript.CommandLine.Path

/-!
# Texts of paths

A path that is put together from segments is taken apart into them again. So it can be said what the
segments of a default output are: those of the input without idle ones in front of the file name,
and with another file name.
-/

namespace MarkupScript.CommandLine

/-! ### Segments of a text -/

theorem segments_ne_nil (cs : List Char) : segments cs ≠ [] := by
  cases cs with
  | nil => simp [segments]
  | cons c cs =>
    rw [segments]
    split
    · simp
    · split <;> simp

theorem not_slash_mem_segments {cs s : List Char} (h : s ∈ segments cs) : '/' ∉ s := by
  induction cs generalizing s with
  | nil =>
    obtain rfl := List.mem_singleton.mp h
    simp
  | cons c cs ih =>
    rw [segments] at h
    split at h
    · rcases List.mem_cons.mp h with rfl | h
      · simp
      · exact ih h
    · next hc =>
      split at h
      · next hnil => exact absurd hnil (segments_ne_nil cs)
      · next t rest hcs =>
        rcases List.mem_cons.mp h with rfl | h
        · have ht := ih (s := t) (by simp [hcs])
          simp [ht, Ne.symm hc]
        · exact ih (by simp [hcs, h])

theorem segments_of_not_slash {cs : List Char} (h : '/' ∉ cs) : segments cs = [cs] := by
  induction cs with
  | nil => rfl
  | cons c cs ih =>
    simp only [List.mem_cons, not_or] at h
    obtain ⟨hc, hcs⟩ := h
    rw [segments, if_neg (Ne.symm hc), ih hcs]

theorem segments_append_slash {cs : List Char} (h : '/' ∉ cs) (ds : List Char) :
    segments (cs ++ '/' :: ds) = cs :: segments ds := by
  induction cs with
  | nil => simp [segments]
  | cons c cs ih =>
    simp only [List.mem_cons, not_or] at h
    obtain ⟨hc, hcs⟩ := h
    rw [List.cons_append, segments, if_neg (Ne.symm hc), ih hcs]

/-- Segments with slashes between them are taken apart again. -/
theorem segments_intercalate {ss : List (List Char)} (hne : ss ≠ []) (h : ∀ s ∈ ss, '/' ∉ s) :
    segments (['/'].intercalate ss) = ss := by
  induction ss with
  | nil => exact absurd rfl hne
  | cons s ss ih =>
    have hs := h s List.mem_cons_self
    cases ss with
    | nil => simpa using segments_of_not_slash hs
    | cons t ss =>
      have hrest := ih (by simp) fun u hu => h u (List.mem_cons_of_mem s hu)
      have hcons : ['/'].intercalate (s :: t :: ss) = s ++ '/' :: ['/'].intercalate (t :: ss) := by
        simp [List.intercalate]
      rw [hcons, segments_append_slash hs, hrest]

namespace Path

/-! ### Paths and their texts -/

theorem segments_ofString_ne_nil (text : String) : (ofString text).segments ≠ [] := by
  unfold ofString
  split
  · next h =>
    cases hcs : text.toList with
    | nil => simp [hcs] at h
    | cons c cs =>
      obtain rfl : c = '/' := by simpa [hcs] using h
      simpa [CommandLine.segments] using segments_ne_nil cs
  · simpa using segments_ne_nil text.toList

theorem not_slash_mem_ofString {text s : String} (h : s ∈ (ofString text).segments) :
    '/' ∉ s.toList := by
  have hmem : s ∈ (CommandLine.segments text.toList).map String.ofList := by
    unfold ofString at h
    split at h
    · exact List.mem_of_mem_drop h
    · exact h
  obtain ⟨cs, hcs, rfl⟩ := List.mem_map.mp hmem
  simpa using not_slash_mem_segments hcs

/-- A path that does not start from the root starts with a segment that is not empty. -/
theorem head?_ofString_ne {text : String} (hne : text ≠ "")
    (h : (ofString text).absolute = false) : (ofString text).segments.head? ≠ some "" := by
  unfold ofString at h ⊢
  split at h
  · cases h
  · next hslash =>
    rw [if_neg hslash]
    cases hcs : text.toList with
    | nil => exact absurd (by simpa using hcs) hne
    | cons c cs =>
      have hc : c ≠ '/' := by simpa [hcs] using hslash
      rw [CommandLine.segments, if_neg hc]
      split <;> simp

theorem head?_init_ofString_ne {text name : String} {absolute : Bool} {init : List String}
    (hne : text ≠ "") (h : ofString text = ⟨absolute, init ++ [name]⟩) (hrelative : absolute = false) :
    init.head? ≠ some "" := by
  subst hrelative
  have hhead := head?_ofString_ne hne (congrArg Path.absolute h)
  rw [h] at hhead
  cases init with
  | nil => simp
  | cons s init => simpa using hhead

/-- The text of a path is taken apart into its segments. -/
theorem ofString_text {absolute : Bool} {segs : List String} (hne : segs ≠ [])
    (hslash : ∀ s ∈ segs, '/' ∉ s.toList) (hhead : absolute = false → segs.head? ≠ some "") :
    ofString (text absolute segs) = ⟨absolute, segs⟩ := by
  have hsegs : (CommandLine.segments (['/'].intercalate (segs.map String.toList))).map
      String.ofList = segs := by
    rw [segments_intercalate (by simpa using hne) (by simpa using hslash)]
    simp
  cases absolute with
  | true =>
    have htext : (text true segs).toList = '/' :: ['/'].intercalate (segs.map String.toList) := by
      simp [text]
    simp [ofString, htext, CommandLine.segments, hsegs]
  | false =>
    have htext : (text false segs).toList = ['/'].intercalate (segs.map String.toList) := by
      simp [text]
    have hfirst : (text false segs).toList.head? ≠ some '/' := by
      rw [htext]
      cases segs with
      | nil => exact absurd rfl hne
      | cons s rest =>
        have hs := hslash s List.mem_cons_self
        cases hcs : s.toList with
        | nil => exact absurd (by simpa using hcs) (hhead rfl)
        | cons c cs =>
          have hc : c ≠ '/' := by
            rintro rfl
            simp [hcs] at hs
          cases rest <;> simp [List.intercalate, hcs, hc]
    unfold ofString
    rw [if_neg hfirst, htext, hsegs]

/-! ### Idle segments -/

theorem head?_ne_of_forall {segs : List String} {s : String}
    (h : ∀ rest, segs = s :: rest → False) : segs.head? ≠ some s := by
  cases segs with
  | nil => simp
  | cons s' rest =>
    simp only [List.head?_cons, ne_eq, Option.some.injEq]
    rintro rfl
    exact h rest rfl

theorem components_eq (absolute : Bool) (segs : List String) : components ⟨absolute, segs⟩ =
    (if absolute = false ∧ segs.head? = some "." then ["."] else []) ++
      segs.filter (!isIdle ·) := by
  unfold components
  split
  · next rest habsolute h =>
    obtain rfl : absolute = false := habsolute
    obtain rfl : segs = "." :: rest := h
    simp [isIdle]
  · next h =>
    cases absolute with
    | true => simp
    | false => simp [head?_ne_of_forall fun rest => h rest rfl]

/-- Idle segments in the middle do not count. -/
theorem alike_of_isIdle {absolute : Bool} {before idle behind : List String}
    (h : ∀ s ∈ idle, isIdle s = true)
    (hhead : absolute = false → (before ++ behind).head? = (before ++ idle ++ behind).head?) :
    alike ⟨absolute, before ++ behind⟩ ⟨absolute, before ++ idle ++ behind⟩ = true := by
  have hfilter : idle.filter (!isIdle ·) = [] := by simpa using h
  cases absolute with
  | true => simp [alike, components_eq, hfilter]
  | false => simp [alike, components_eq, hhead rfl, hfilter]

theorem exists_dropIdle (segs : List String) :
    ∃ idle, (∀ s ∈ idle, isIdle s = true) ∧ segs = trimmed.dropIdle segs ++ idle := by
  refine ⟨(segs.reverse.takeWhile isIdle).reverse, fun s hs => ?_, ?_⟩
  · exact List.all_eq_true.mp List.all_takeWhile s (List.mem_reverse.mp hs)
  · rw [trimmed.dropIdle, ← List.reverse_append, List.takeWhile_append_dropWhile,
      List.reverse_reverse]

theorem dropIdle_concat {name : String} (h : isIdle name = false) (init : List String) :
    trimmed.dropIdle (init ++ [name]) = init ++ [name] := by
  simp [trimmed.dropIdle, h]

theorem dropIdle_ne (segs : List String) : trimmed.dropIdle segs ≠ [""] := by
  have hfirst := List.head?_dropWhile_not isIdle segs.reverse
  intro h
  rw [trimmed.dropIdle, List.reverse_eq_iff] at h
  rw [h] at hfirst
  cases hfirst

theorem trimmed_eq (absolute : Bool) (segs : List String) : trimmed ⟨absolute, segs⟩ =
    if absolute = false ∧ segs.head? = some "." then "." :: trimmed.dropIdle segs.tail
    else trimmed.dropIdle segs := by
  unfold trimmed
  split
  · next rest habsolute h =>
    obtain rfl : absolute = false := habsolute
    obtain rfl : segs = "." :: rest := h
    simp
  · next h =>
    cases absolute with
    | true => simp
    | false => simp [head?_ne_of_forall fun rest => h rest rfl]

theorem trimmed_ne (p : Path) : p.trimmed ≠ [""] := by
  rw [trimmed_eq]
  split
  · simp
  · exact dropIdle_ne p.segments

/-- A path that ends in a name has no idle segments at its end. -/
theorem trimmed_concat {name : String} (h : isIdle name = false) (absolute : Bool)
    (init : List String) : trimmed ⟨absolute, init ++ [name]⟩ = init ++ [name] := by
  rw [trimmed_eq]
  split
  · next hdot =>
    cases init with
    | nil =>
      obtain rfl : name = "." := by simpa using hdot.2
      cases h
    | cons s init =>
      obtain rfl : s = "." := by simpa using hdot.2
      simpa using dropIdle_concat h init
  · exact dropIdle_concat h init

/-- All that trimming drops from a path is idle, and it does not drop the beginning of a path that
does not start from the root. -/
theorem exists_trimmed {absolute : Bool} {segs : List String}
    (hhead : absolute = false → segs.head? ≠ some "") :
    ∃ idle, (∀ s ∈ idle, isIdle s = true) ∧ segs = trimmed ⟨absolute, segs⟩ ++ idle ∧
      (absolute = false → trimmed ⟨absolute, segs⟩ = [] → segs = []) := by
  rw [trimmed_eq]
  split
  · next hdot =>
    obtain ⟨rest, rfl⟩ : ∃ rest, segs = "." :: rest := by
      cases segs with
      | nil => cases hdot.2
      | cons s rest => exact ⟨rest, by simpa using hdot.2⟩
    obtain ⟨idle, hidle, hrest⟩ := exists_dropIdle rest
    exact ⟨idle, hidle, by rw [List.tail_cons, List.cons_append, ← hrest], by simp⟩
  · next hdot =>
    obtain ⟨idle, hidle, hsegs⟩ := exists_dropIdle segs
    refine ⟨idle, hidle, hsegs, fun hrelative hnil => ?_⟩
    rw [hnil, List.nil_append] at hsegs
    subst hsegs
    cases segs with
    | nil => rfl
    | cons s rest =>
      have hs := hidle s List.mem_cons_self
      have hne : s ≠ "" := by simpa using hhead hrelative
      have hdot : s ≠ "." := by simpa [hrelative] using hdot
      simp [isIdle, hne, hdot] at hs

/-! ### Default outputs -/

theorem not_slash_mem_stem {name : String} (h : '/' ∉ name.toList) : '/' ∉ (stem name).toList := by
  unfold stem
  simp only
  split
  · exact h
  · intro hmem
    rw [String.toList_ofList, List.mem_reverse] at hmem
    exact h (List.mem_reverse.mp ((List.dropWhile_sublist _).subset (List.mem_of_mem_drop hmem)))

/-- The text of a directory with a file in it. -/
theorem text_concat {absolute : Bool} {directory : List String}
    (hslash : ∀ s ∈ directory, '/' ∉ s.toList)
    (hhead : absolute = false → directory.head? ≠ some "") (hne : directory ≠ [""])
    (file : String) :
    (if (text absolute directory).isEmpty ∨ text absolute directory = "/" then
      text absolute directory ++ file else text absolute directory ++ "/" ++ file) =
      text absolute (directory ++ [file]) := by
  by_cases hnil : directory = []
  · subst hnil
    cases absolute <;> simp [text]
  · have hpath := ofString_text hnil hslash hhead
    -- Both of these texts have a single segment, which is empty.
    have hother : ¬((text absolute directory).isEmpty ∨ text absolute directory = "/") := by
      rintro (h | h)
      · rw [String.isEmpty_iff.mp h] at hpath
        exact hne (congrArg Path.segments hpath).symm
      · rw [h] at hpath
        exact hne (congrArg Path.segments hpath).symm
    rw [if_neg hother, text, text, String.intercalate_append_of_ne_nil hnil (by simp)]
    simp [String.append_assoc]

/-- The segments of the default output for a file. -/
theorem ofString_defaultOutput {input name : String} {absolute : Bool} {init : List String}
    (hne : input ≠ "") (h : ofString input = ⟨absolute, init ++ [name]⟩)
    (hname : isIdle name = false) :
    ofString (defaultOutput input) =
      ⟨absolute, trimmed ⟨absolute, init⟩ ++ [stem name ++ ".js"]⟩ := by
  have hinput : (ofString input).segments = init ++ [name] := congrArg Path.segments h
  have hslash (s) (hs : s ∈ init ++ [name]) : '/' ∉ s.toList :=
    not_slash_mem_ofString (hinput.symm ▸ hs)
  have hinit := head?_init_ofString_ne hne h
  obtain ⟨idle, -, hsegs, -⟩ := exists_trimmed hinit
  have hnotEmpty := trimmed_ne ⟨absolute, init⟩
  have houtput : defaultOutput input =
      if (text absolute (trimmed ⟨absolute, init⟩)).isEmpty ∨
          text absolute (trimmed ⟨absolute, init⟩) = "/" then
        text absolute (trimmed ⟨absolute, init⟩) ++ (stem name ++ ".js")
      else text absolute (trimmed ⟨absolute, init⟩) ++ "/" ++ (stem name ++ ".js") := by
    simp only [defaultOutput, h, trimmed_concat hname, List.dropLast_concat, List.getLast?_concat,
      Option.map_some, Option.getD_some]
  rw [houtput]
  generalize trimmed ⟨absolute, init⟩ = directory at hsegs hnotEmpty
  have hdirectory (s) (hs : s ∈ directory) : '/' ∉ s.toList := hslash s (by simp [hsegs, hs])
  have hfirst (hrelative : absolute = false) : directory.head? ≠ some "" := by
    cases directory with
    | nil => simp
    | cons s rest => simpa [hsegs] using hinit hrelative
  rw [text_concat hdirectory hfirst hnotEmpty]
  refine ofString_text (by simp) (fun s hs => ?_) fun hrelative => ?_
  · rcases List.mem_append.mp hs with hs | hs
    · exact hdirectory s hs
    · obtain rfl := List.mem_singleton.mp hs
      simpa using not_slash_mem_stem (hslash name (by simp))
  · cases directory with
    | nil => simp
    | cons s rest => simpa using hfirst hrelative

/-- If the default output for a file has the name of the file, both paths are alike. -/
theorem alike_defaultOutput {input name : String} {absolute : Bool} {init : List String}
    (hne : input ≠ "") (h : ofString input = ⟨absolute, init ++ [name]⟩)
    (hname : isIdle name = false) (hstem : stem name ++ ".js" = name) :
    (ofString (defaultOutput input)).alike (ofString input) = true := by
  obtain ⟨idle, hidle, hinit, hnil⟩ := exists_trimmed (head?_init_ofString_ne hne h)
  rw [ofString_defaultOutput hne h hname, hstem, h]
  generalize trimmed ⟨absolute, init⟩ = directory at hinit hnil
  subst hinit
  refine alike_of_isIdle hidle fun hrelative => ?_
  cases directory with
  | nil => rw [hnil hrelative rfl, List.nil_append]
  | cons s rest => simp

end Path

end MarkupScript.CommandLine
