import Mathlib.Data.List.Nodup
import MarkupScript.Proofs.Template.Unchanged

/-!
# Pairs of element calls

In a lowered template function, the calls that start and end elements come in pairs: a pair has one
index, and pairs lie properly in one another. An element that is started and never ended in the
function gives a call of `ΘelementStart` alone, since nothing asks for its end tag. The numbers that
stand in the calls tell as much as the indices, as long as doubles can count the statements.

`compile_elementCalls` says this of every template function in a compilation.
-/

namespace MarkupScript

/-! ### Calls in pairs -/

/-- A call of `ΘelementStart` or `ΘelementEnd`, by its index. -/
inductive ElementCall where
  | start (index : Nat)
  | stop (index : Nat)
  deriving DecidableEq

namespace ElementCall

/-- The statement that a call is, with a number that stands for the index. -/
def Is (options : Options) : ElementCall → Stmt → Prop
  | start index, s => ∃ number rest span, number.Counts index ∧
    s = numberedCall options "ΘelementStart" number rest span
  | stop index, s => ∃ number span, number.Counts index ∧
    s = numberedCall options "ΘelementEnd" number [] span

/-- The index of a call. -/
def index : ElementCall → Nat
  | start index | stop index => index

/-- The index of a call that starts an element. -/
def started? : ElementCall → Option Nat
  | start index => some index
  | stop _ => none

end ElementCall

/-- Calls in pairs with equal indices, which lie properly in one another. -/
inductive InPairs : List ElementCall → Prop
  | nil : InPairs []
  | pair {index : Nat} {inside behind : List ElementCall} : InPairs inside → InPairs behind →
      InPairs (.start index :: (inside ++ .stop index :: behind))

/-- Calls in pairs, but for the starts with the indices `left`, innermost first. -/
def InPairsBut : (left : List Nat) → List ElementCall → Prop
  | [], cs => InPairs cs
  | index :: outer, cs => ∃ before inside,
    cs = before ++ .start index :: inside ∧ InPairs inside ∧ InPairsBut outer before

theorem InPairs.append {cs ds : List ElementCall} (hc : InPairs cs) (hd : InPairs ds) :
    InPairs (cs ++ ds) := by
  induction hc with
  | nil => exact hd
  | pair hinside _ _ ih =>
    rw [List.cons_append, List.append_assoc, List.cons_append]
    exact .pair hinside ih

namespace InPairsBut

variable {left : List Nat} {cs : List ElementCall} {index : Nat}

theorem append {ds : List ElementCall} (h : InPairsBut left cs) (hd : InPairs ds) :
    InPairsBut left (cs ++ ds) := by
  cases left with
  | nil => exact InPairs.append h hd
  | cons index outer =>
    obtain ⟨before, inside, rfl, hinside, houter⟩ := h
    exact ⟨before, inside ++ ds, by simp, hinside.append hd, houter⟩

theorem start (h : InPairsBut left cs) : InPairsBut (index :: left) (cs ++ [.start index]) :=
  ⟨cs, [], rfl, .nil, h⟩

/-- A call that ends an element makes a pair with the innermost start that is left. -/
theorem stop (h : InPairsBut (index :: left) cs) : InPairsBut left (cs ++ [.stop index]) := by
  obtain ⟨before, inside, rfl, hinside, houter⟩ := h
  have hpair : InPairs (.start index :: (inside ++ [.stop index])) := .pair hinside .nil
  rw [List.append_assoc, List.cons_append]
  exact houter.append hpair

end InPairsBut

theorem InPairs.count_eq {cs : List ElementCall} (h : InPairs cs) (i : Nat) :
    cs.count (.stop i) = cs.count (.start i) := by
  induction h with
  | nil => rfl
  | pair _ _ ihInside ihBehind =>
    simp only [List.count_cons, List.count_append, ihInside, ihBehind, beq_iff_eq, reduceCtorEq,
      ElementCall.start.injEq, ElementCall.stop.injEq, if_false]
    omega

/-- Every start has an end with its index, unless it is left. -/
theorem InPairsBut.count_eq {left : List Nat} {cs : List ElementCall} (h : InPairsBut left cs)
    (i : Nat) : cs.count (.stop i) + left.count i = cs.count (.start i) := by
  induction left generalizing cs with
  | nil => exact InPairs.count_eq h i
  | cons index outer ih =>
    obtain ⟨before, inside, rfl, hinside, houter⟩ := h
    have houter := ih houter
    have hinside := hinside.count_eq i
    simp only [List.count_cons, List.count_append, beq_iff_eq, reduceCtorEq,
      ElementCall.start.injEq, if_false]
    omega

theorem ElementCall.count_start_eq (cs : List ElementCall) (i : Nat) :
    cs.count (.start i) = (cs.filterMap started?).count i := by
  induction cs with
  | nil => rfl
  | cons c cs ih => cases c <;> simp [List.count_cons, List.filterMap_cons, started?, ih]

theorem ElementCall.mem_started {cs : List ElementCall} {i : Nat} :
    i ∈ cs.filterMap started? ↔ .start i ∈ cs := by
  rw [← List.count_pos_iff, ← count_start_eq, List.count_pos_iff]

/-- The index of an end is that of a start. -/
theorem InPairsBut.start_mem {left : List Nat} {cs : List ElementCall} (h : InPairsBut left cs)
    {c : ElementCall} (hc : c ∈ cs) : .start c.index ∈ cs := by
  cases c with
  | start i => exact hc
  | stop i =>
    have hsum := h.count_eq i
    have hpos := List.count_pos_iff.mpr hc
    exact List.count_pos_iff.mp (Nat.lt_of_lt_of_le hpos (by rw [ElementCall.index]; omega))

/-- If no two starts have the same index, then a start has exactly one end, or none if it is left. -/
theorem InPairsBut.counts {left : List Nat} {cs : List ElementCall} (h : InPairsBut left cs)
    (hincreasing : (cs.filterMap ElementCall.started?).Pairwise (· < ·)) {i : Nat}
    (hi : .start i ∈ cs) :
    cs.count (.start i) = 1 ∧ cs.count (.stop i) = if i ∈ left then 0 else 1 := by
  have hle := List.nodup_iff_count_le_one.mp (hincreasing.imp Nat.ne_of_lt) i
  rw [← ElementCall.count_start_eq] at hle
  have hpos := List.count_pos_iff.mpr hi
  have hsum := h.count_eq i
  refine ⟨by omega, ?_⟩
  split
  · next hleft =>
    have := List.count_pos_iff.mpr hleft
    omega
  · next hleft =>
    have := List.count_eq_zero.mpr hleft
    omega

/-! ### The calls for the tags of a region -/

/-- The call for a tag in a template function. -/
def Template.elementCall? (t : Template) : Stmt → Option ElementCall
  | .elementStart _ _ _ => some (.start t.nextIndex)
  | .elementEnd _ _ => t.openElements.head?.map .stop
  | _ => none

/-- The calls for the tags of a region, from a template function `t` on. -/
def Template.elementCalls (t : Template) : List Stmt → List ElementCall
  | [] => []
  | s :: r => (t.elementCall? s).toList ++ (t.behind s).elementCalls r

/-- What stands in the place of the start tags and end tags of a region. -/
def inPlaceOfTags (r r' : List Stmt) : List Stmt :=
  (r.zip r').filterMap fun (s, s') => if s.isStartOrEnd then some s' else none

theorem length_inPlaceOfTags {r r' : List Stmt} (h : r'.length = r.length) :
    (inPlaceOfTags r r').length = r.countP Stmt.isStartOrEnd := by
  induction r generalizing r' with
  | nil => rfl
  | cons s r ih =>
    cases r' with
    | nil => cases h
    | cons s' r' =>
      have ih := ih (Nat.succ.inj h)
      cases hs : s.isStartOrEnd <;> simpa [inPlaceOfTags, hs] using ih

theorem Template.elementCall?_of_plain (t : Template) {s : Stmt} (h : s.isStartOrEnd = false) :
    t.elementCall? s = none ∧ (t.behind s).openElements = t.openElements := by
  cases s <;> first | exact ⟨rfl, rfl⟩ | cases h

/-- In the place of a tag stands its call. -/
theorem Replaced.elementCall {options : Options} {t : Template} {s s' : Stmt}
    (h : Replaced options t.nextIndex (· ∈ t.openElements.head?) s s')
    (hs : s.isStartOrEnd = true) : ∃ c, t.elementCall? s = some c ∧ c.Is options s' := by
  cases h with
  | elementStart hnumber _ => exact ⟨_, rfl, _, _, _, hnumber, rfl⟩
  | @elementEnd _ _ name span k number hk hnumber =>
    have hk : t.openElements.head? = some k := hk
    exact ⟨.stop k, by simp [Template.elementCall?, hk], number, span, hnumber, rfl⟩
  | kept hm _ =>
    cases s with
    | elementStart | elementEnd => cases hm
    | _ => cases hs
  | element | text => cases hs

theorem ReplacedFrom.elementCalls {options : Options} {t : Template} {r r' : List Stmt}
    (h : ReplacedFrom options t r r') :
    List.Forall₂ (ElementCall.Is options) (t.elementCalls r) (inPlaceOfTags r r') := by
  induction r generalizing t r' with
  | nil => exact .nil
  | cons s r ih =>
    cases r' with
    | nil => cases h
    | cons s' r' =>
      have hrest := ih h.2
      cases hs : s.isStartOrEnd with
      | false =>
        simpa [Template.elementCalls, inPlaceOfTags, t.elementCall?_of_plain hs, hs] using hrest
      | true =>
        obtain ⟨c, hc, his⟩ := h.1.elementCall hs
        simpa [Template.elementCalls, inPlaceOfTags, hc, hs] using ⟨his, hrest⟩

/-- Along a region the calls are in pairs, but for the elements that are still open. -/
theorem ReplacedFrom.inPairsBut {options : Options} {t : Template} {r r' : List Stmt}
    (h : ReplacedFrom options t r r') {cs : List ElementCall}
    (hcs : InPairsBut t.openElements cs) :
    InPairsBut (r.foldl Template.behind t).openElements (cs ++ t.elementCalls r) := by
  induction r generalizing t r' cs with
  | nil => simpa [Template.elementCalls] using hcs
  | cons s r ih =>
    cases r' with
    | nil => cases h
    | cons s' r' =>
      have hstep : InPairsBut (t.behind s).openElements (cs ++ (t.elementCall? s).toList) := by
        cases hs : s.isStartOrEnd with
        | false =>
          obtain ⟨hcall, hopen⟩ := t.elementCall?_of_plain hs
          simpa [hcall, hopen] using hcs
        | true =>
          cases s with
          | elementStart => exact hcs.start
          | elementEnd =>
            obtain ⟨function, nextIndex, openElements⟩ := t
            obtain ⟨c, hc, -⟩ := h.1.elementCall hs
            cases openElements with
            | nil => cases hc
            | cons k outer => exact hcs.stop
          | _ => cases hs
      rw [List.foldl_cons, Template.elementCalls, ← List.append_assoc]
      exact ih h.2 hstep

/-- The elements of a region have different indices, which count up. -/
theorem Template.started_increasing (t : Template) (r : List Stmt) :
    ((t.elementCalls r).filterMap ElementCall.started?).Pairwise (· < ·) ∧
      ∀ i ∈ (t.elementCalls r).filterMap ElementCall.started?, t.nextIndex ≤ i := by
  induction r generalizing t with
  | nil => exact ⟨.nil, fun i hi => by cases hi⟩
  | cons s r ih =>
    obtain ⟨hrest, hle⟩ := ih (t.behind s)
    have hnext : t.nextIndex ≤ (t.behind s).nextIndex := by
      simp only [behind]
      split <;> omega
    have hle' (i) (hi : i ∈ ((t.behind s).elementCalls r).filterMap ElementCall.started?) :
        t.nextIndex ≤ i := Nat.le_trans hnext (hle i hi)
    rw [elementCalls, List.filterMap_append]
    cases s with
    | elementStart name attributes span =>
      have hlt (i) (hi : i ∈ ((t.behind (.elementStart name attributes span)).elementCalls
          r).filterMap ElementCall.started?) : t.nextIndex < i := hle i hi
      simp only [elementCall?, Option.toList_some, List.filterMap_cons, ElementCall.started?,
        List.filterMap_nil, List.cons_append, List.nil_append]
      refine ⟨List.pairwise_cons.mpr ⟨hlt, hrest⟩, fun i hi => ?_⟩
      rcases List.mem_cons.mp hi with rfl | hi
      · exact Nat.le_refl _
      · exact hle' i hi
    | elementEnd name span =>
      have hnone : ((t.elementCall? (.elementEnd name span)).toList).filterMap
          ElementCall.started? = [] := by
        simp only [elementCall?]
        cases t.openElements.head? <;> rfl
      rw [hnone]
      exact ⟨hrest, hle'⟩
    | _ => exact ⟨hrest, hle'⟩

/-- There are no more indices than statements. -/
theorem Template.started_lt (t : Template) {r : List Stmt} {i : Nat}
    (h : i ∈ (t.elementCalls r).filterMap ElementCall.started?) : i < t.nextIndex + r.length := by
  induction r generalizing t with
  | nil => cases h
  | cons s r ih =>
    rw [elementCalls, List.filterMap_append, List.mem_append] at h
    rw [List.length_cons]
    rcases h with h | h
    · have hi : i = t.nextIndex := by
        cases s with
        | elementStart => simpa [elementCall?, ElementCall.started?] using h
        | elementEnd => simp [elementCall?, ElementCall.started?] at h
        | _ => cases h
      omega
    · have hlt := ih (t.behind s) h
      have hnext : (t.behind s).nextIndex ≤ t.nextIndex + 1 := by
        simp only [behind]
        split <;> omega
      omega

/-- Behind balanced statements the same elements are open as in front of them. -/
theorem Balanced.openElements_eq {r : List Stmt} (h : Balanced r) (t : Template) :
    (r.foldl Template.behind t).openElements = t.openElements := by
  induction h generalizing t with
  | nil => rfl
  | plain hs _ ih => rw [List.foldl_cons, ih, (t.elementCall?_of_plain hs).2]
  | element _ _ ihInside ihBehind =>
    rw [List.foldl_cons, List.foldl_append, List.foldl_cons, ihBehind]
    simp only [Template.behind, ihInside, List.tail_cons]

/-! ### Numbers in calls -/

/-- The number in a call of a function. -/
def Stmt.numberTo? (callee : String) : Stmt → Option Double
  | .expression (.call (.identifier name _) (_ :: .number number _ :: _) _) =>
    if name = callee then some number else none
  | _ => none

/-- How often a number stands in calls of a function. -/
def countNumber (callee : String) (number : Double) (ss : List Stmt) : Nat :=
  (ss.filterMap (Stmt.numberTo? callee)).count number

theorem countNumber_cons (options : Options) (callee callee' : String) (number other : Double)
    (rest : List Expr) (span : Span) (ss : List Stmt) :
    countNumber callee number (numberedCall options callee' other rest span :: ss) =
      countNumber callee number ss + if callee' = callee ∧ other = number then 1 else 0 := by
  have hnumber : (numberedCall options callee' other rest span).numberTo? callee =
      if callee' = callee then some other else none := rfl
  rw [countNumber, countNumber, List.filterMap_cons, hnumber]
  by_cases h : callee' = callee <;> simp [h, List.count_cons]

/-- As far as doubles are exact, a number stands in as many calls as the index it stands for. -/
theorem countNumber_eq {options : Options} {calls : List ElementCall} {ss : List Stmt}
    (h : List.Forall₂ (ElementCall.Is options) calls ss)
    (hcalls : ∀ c ∈ calls, c.index ≤ 2 ^ 53) {i : Nat} (hi : i ≤ 2 ^ 53) {number : Double}
    (hnumber : number.Counts i) :
    countNumber "ΘelementStart" number ss = calls.count (.start i) ∧
      countNumber "ΘelementEnd" number ss = calls.count (.stop i) := by
  induction h with
  | nil => exact ⟨rfl, rfl⟩
  | @cons c s calls ss hc _ ih =>
    rw [List.forall_mem_cons] at hcalls
    obtain ⟨hindex, hcalls⟩ := hcalls
    obtain ⟨hstart, hstop⟩ := ih hcalls
    have hsame {other : Double} (hother : other.Counts c.index) : other = number ↔ c.index = i := by
      constructor
      · rintro rfl
        exact hother.inj hnumber hindex hi
      · rintro rfl
        exact hother.unique hnumber hindex
    cases c with
    | start j =>
      obtain ⟨other, rest, span, hother, rfl⟩ := hc
      have hsame : other = number ↔ j = i := hsame hother
      simp [countNumber_cons, hstart, hstop, hsame, List.count_cons]
    | stop j =>
      obtain ⟨other, span, hother, rfl⟩ := hc
      have hsame : other = number ↔ j = i := hsame hother
      simp [countNumber_cons, hstart, hstop, hsame, List.count_cons]

/-! ### Template functions in a compilation -/

/-- The calls for the start tags and end tags of a template function, in document order, and the
elements that are left open at its end, by index and innermost first. -/
structure ElementsPaired (options : Options) (body body' : List Stmt) (calls : List ElementCall)
    (left : List Nat) : Prop where
  /-- Every statement has its place. -/
  length_eq : (regionAll body').length = (regionAll body).length
  /-- These are the calls that stand in the place of tags. -/
  places : List.Forall₂ (ElementCall.Is options) calls
    (inPlaceOfTags (regionAll body) (regionAll body'))
  /-- No two elements have the same index. -/
  increasing : (calls.filterMap ElementCall.started?).Pairwise (· < ·)
  /-- The calls are in pairs, but for the elements that are left. -/
  inPairs : InPairsBut left calls
  /-- The indices are below the number of statements. -/
  index_lt : ∀ c ∈ calls, c.index < (regionAll body).length
  /-- A start has exactly one end, or none if it is left. -/
  ends : ∀ i, .start i ∈ calls → calls.count (.stop i) = if i ∈ left then 0 else 1
  /-- The same holds of the numbers in the calls, as far as doubles are exact: a number that stands
  for the index of a start stands in no other start and in exactly one end, or in none. -/
  numbers : (regionAll body).length ≤ 2 ^ 53 → ∀ i number, .start i ∈ calls → number.Counts i →
    countNumber "ΘelementStart" number (inPlaceOfTags (regionAll body) (regionAll body')) = 1 ∧
    countNumber "ΘelementEnd" number (inPlaceOfTags (regionAll body) (regionAll body')) =
      if i ∈ left then 0 else 1
  /-- What is left are elements that no end tag of the function ends. -/
  isOpen : OpenBehind left (regionAll body)
  /-- If the tags of the function are balanced, then nothing is left. -/
  balanced : Balanced (regionAll body) → left = []

theorem ReplacedFrom.elementsPaired {options : Options} {function : String}
    {body body' : List Stmt}
    (h : ReplacedFrom options ⟨function, 0, []⟩ (regionAll body) (regionAll body')) :
    ∃ calls left, ElementsPaired options body body' calls left := by
  have hincreasing := (Template.started_increasing ⟨function, 0, []⟩ (regionAll body)).1
  have hpairs := h.inPairsBut InPairs.nil
  rw [List.nil_append] at hpairs
  have hindex (c) (hc : c ∈ Template.elementCalls ⟨function, 0, []⟩ (regionAll body)) :
      c.index < (regionAll body).length := by
    simpa using Template.started_lt _ (ElementCall.mem_started.mpr (hpairs.start_mem hc))
  refine ⟨_, _, h.length_eq, h.elementCalls, hincreasing, hpairs, hindex,
    fun i hi => (hpairs.counts hincreasing hi).2, fun hsize i number hi hnumber => ?_,
    openBehind_foldl function (regionAll body), fun hb => hb.openElements_eq _⟩
  have hsmall (c) (hc : c ∈ Template.elementCalls ⟨function, 0, []⟩ (regionAll body)) :
      c.index ≤ 2 ^ 53 := Nat.le_trans (Nat.le_of_lt (hindex c hc)) hsize
  obtain ⟨hstart, hstop⟩ := countNumber_eq h.elementCalls hsmall (hsmall _ hi) hnumber
  rw [hstart, hstop]
  exact hpairs.counts hincreasing hi

/-- The region of a template function is replaced statement by statement. -/
theorem LowersTo.template {options : Options} {name : String} {params : List String}
    {body : List Stmt} {d : Decorator} {f' : Stmt}
    (h : LowersTo options (.function name params body (some d)) f') :
    ∃ body', f' = .function name (options.renderContext :: params) body' none ∧
      ReplacedFrom options ⟨name, 0, []⟩ (regionAll body) (regionAll body') := by
  obtain ⟨st, st', h⟩ := h
  obtain ⟨body', st₁, hlower, rfl, -⟩ := Stmt.lower_function_eq_ok.mp h
  exact ⟨body', rfl, (mapM_lower_region (fun s _ => s.lower_region) hlower).1⟩

/-- **Elements in pairs.** Take the functions of a program with its decorators attached and those of
the compiled program, in document order. In a template function, the calls that stand in the place
of start tags and end tags are in pairs, each with an index of its own and properly nested, but for
the starts of elements that no end tag of the function ends. -/
theorem compile_elementCalls {source : String} {options : Options} {out : Compiled}
    (h : compile source options = .ok out) :
    ∃ p, parse source = .ok p ∧
      List.Forall₂ (fun f f' => ∀ name params body d, f = .function name params body (some d) →
        ∃ body' calls left, f' = .function name (options.renderContext :: params) body' none ∧
          ElementsPaired options body body' calls left)
        p.attachDecorators.program.functions out.program.functions := by
  obtain ⟨p, q, hp, hq, rfl⟩ := exists_of_compile_eq_ok h
  refine ⟨p, hp, (Program.functions_lowersTo hq).imp ?_⟩
  rintro _ f' hf name params body d rfl
  obtain ⟨body', rfl, hregion⟩ := hf.template
  obtain ⟨calls, left, hpaired⟩ := hregion.elementsPaired
  exact ⟨body', calls, left, rfl, hpaired⟩

/-- A program that is one function has the functions in it besides. -/
theorem Program.functions_ofFunction (name : String) (params : List String) (body : List Stmt)
    (own : Option Decorator) : functions ⟨[.function name params body own]⟩ =
      .function name params body own :: functionsAll body := by
  rw [functions, functionsAll, List.flatMap_singleton, Stmt.functions_eq]
  rfl

/-- Elements in one another and across a branch, with another closing name, and one without an
end. -/
def pairsText : String :=
  "@T function f(x) \x7b <ul> if (x) \x7b <li> \x7d </b> \"t\" <hr/> </ul> <p> \x7d"

/-- Whether a program is a template function with the tags of this text. -/
def hasPairs : Program → Bool
  | ⟨[.function _ _ [.elementStart _ _ _, .if_ _ (.block [.elementStart _ _ _]) none,
      .elementEnd _ _, .expression _, .element _ _ _, .elementEnd _ _, .elementStart _ _ _]
      (some _)]⟩ => true
  | _ => false

theorem compile_pairsText :
    ∃ p out name params body d body' calls left,
      compile pairsText {} = .ok out ∧ parse pairsText = .ok p ∧
      .function name params body (some d) ∈ p.attachDecorators.program.functions ∧
      .function name ("$renderContext" :: params) body' none ∈ out.program.functions ∧
      ElementsPaired {} body body' calls left ∧ calls.length = 5 := by
  have hok : (compile pairsText {}).toBool = true := by decide +kernel
  have hshape : (parse pairsText).toOption.any (fun p => hasPairs p.attachDecorators.program) =
      true := by decide +kernel
  cases hout : compile pairsText {} with
  | error e =>
    rw [hout] at hok
    cases hok
  | ok out =>
    obtain ⟨p, hp, hall⟩ := compile_elementCalls hout
    rw [hp] at hshape
    simp only [Except.toOption, Option.any_some] at hshape
    unfold hasPairs at hshape
    split at hshape
    · next hprogram =>
      have hfunctions := congrArg Program.functions hprogram
      rw [Program.functions_ofFunction] at hfunctions
      rw [hfunctions] at hall
      obtain ⟨f', fs', hf', -, hfs'⟩ := List.forall₂_cons_left_iff.mp hall
      obtain ⟨body', calls, left, rfl, hpaired⟩ := hf' _ _ _ _ rfl
      have hlength : calls.length = 5 := by
        rw [hpaired.places.length_eq, length_inPlaceOfTags hpaired.length_eq]
        simp [regionAll, Stmt.region_eq, Stmt.nested, Stmt.isFunction, List.countP_cons,
          Stmt.isStartOrEnd]
      exact ⟨p, out, _, _, _, _, body', calls, left, rfl, hp, hfunctions ▸ List.mem_cons_self,
        hfs' ▸ List.mem_cons_self, hpaired, hlength⟩
    · cases hshape

/-- An element that is not ended. -/
def unendedText : String := "@T function f() \x7b <p> \x7d"

/-- Whether a program is a template function with nothing but a start tag. -/
def isUnended : Program → Bool
  | ⟨[.function _ _ [.elementStart _ [] _] (some _)]⟩ => true
  | _ => false

/-- An element that is not ended is compiled all the same, and then the calls are not in pairs. -/
theorem compile_unendedText :
    ∃ p out name params body d body', parse unendedText = .ok p ∧
      compile unendedText {} = .ok out ∧
      p.attachDecorators.program.functions = [.function name params body (some d)] ∧
      out.program.functions = [.function name ("$renderContext" :: params) body' none] ∧
      ∀ calls, List.Forall₂ (ElementCall.Is {}) calls
        (inPlaceOfTags (regionAll body) (regionAll body')) → ¬InPairs calls := by
  have hok : (compile unendedText {}).toBool = true := by decide +kernel
  have hshape : (parse unendedText).toOption.any (fun p => isUnended p.attachDecorators.program) =
      true := by decide +kernel
  cases hout : compile unendedText {} with
  | error e =>
    rw [hout] at hok
    cases hok
  | ok out =>
    obtain ⟨p, q, hp, hq, rfl⟩ := exists_of_compile_eq_ok hout
    have hfunctions := Program.functions_lowersTo hq
    rw [hp] at hshape
    simp only [Except.toOption, Option.any_some] at hshape
    unfold isUnended at hshape
    split at hshape
    · next name params tag span d hprogram =>
      have hone : p.attachDecorators.program.functions =
          [.function name params [.elementStart tag [] span] (some d)] := by
        rw [hprogram, Program.functions_ofFunction]
        simp [functionsAll, Stmt.functions_eq, Stmt.arrowBlocks, attributesArrowBlocks,
          Stmt.isFunction, Stmt.nested]
      rw [hone] at hfunctions
      obtain ⟨f', _, hf', hnil, hq'⟩ := List.forall₂_cons_left_iff.mp hfunctions
      obtain rfl := List.forall₂_nil_left_iff.mp hnil
      obtain ⟨body', rfl, hregion⟩ := hf'.template
      refine ⟨p, _, name, params, _, d, body', hp, rfl, hone, hq', fun calls hcalls hpairs => ?_⟩
      -- One call stands for the one tag, and a single call is no pair.
      have hlength : calls.length = 1 := by
        rw [hcalls.length_eq, length_inPlaceOfTags hregion.length_eq]
        simp [regionAll, Stmt.region_eq, Stmt.nested, Stmt.isFunction, Stmt.isStartOrEnd]
      cases hpairs with
      | nil => cases hlength
      | pair => simp at hlength
    · cases hshape

end MarkupScript
