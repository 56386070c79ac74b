import Mathlib.Data.List.Sort
import MarkupScript.Proofs.Template.Regions
import MarkupScript.Proofs.Tree.Every

/-!
# The import of instructions

A lowered program imports the instructions that the markup of its template functions was turned
into, and no others. Which these are can be seen from the program before: a region with a start tag
calls for one, a region with an end tag for another, and so on.

What is said is about the template functions that lowering comes by. It does not come by a function
that a loop starts with, nor by those in the arguments of the decorator of a function.
-/

namespace MarkupScript

/-- The name of the instruction that a piece of markup is turned into. -/
def Stmt.callee? : Stmt → Option String
  | .elementStart _ _ _ => some "ΘelementStart"
  | .elementEnd _ _ => some "ΘelementEnd"
  | .element _ _ _ => some "Θelement"
  | .expression value => if value.isLiteral then some "Θtext" else none
  | _ => none

/-- The names of the instructions that a template function needs. -/
def Stmt.callees : Stmt → List String
  | .function _ _ body (some _) => (regionAll body).filterMap callee?
  | _ => []

/-- The names of the instructions that the template functions of a program need. -/
def Program.callees (p : Program) : List String := p.functions.flatMap Stmt.callees

/-- The names of the instructions used so far. -/
def Lowering.names (st : Lowering) : List String := st.used.map Instruction.name

/-! ### One statement at a time -/

/-- On the way from one state to another, nothing but some instructions came to be used, and the
template function was not left. -/
structure Uses (names : List String) (st st' : Lowering) : Prop where
  template : st'.template.isSome = st.template.isSome
  names : ∀ n, n ∈ st'.names ↔ n ∈ st.names ∨ n ∈ names

namespace Uses

theorem refl (st : Lowering) : Uses [] st st := ⟨rfl, by simp⟩

theorem trans {ns ns' : List String} {st st₁ st' : Lowering} (h : Uses ns st st₁)
    (h' : Uses ns' st₁ st') : Uses (ns ++ ns') st st' where
  template := h'.template.trans h.template
  names n := by rw [h'.names, h.names, List.mem_append, or_assoc]

/-- The order, and how often a name comes, do not matter. -/
theorem congr {ns ns' : List String} {st st' : Lowering} (h : Uses ns st st')
    (hns : ∀ n, n ∈ ns ↔ n ∈ ns') : Uses ns' st st' where
  template := h.template
  names n := by rw [h.names, hns]

/-- What happens in a part that belongs elsewhere. -/
theorem within {ns : List String} {st st₁ : Lowering} {template : Option Template}
    (h : Uses ns { st with template } st₁) : Uses ns st { st₁ with template := st.template } where
  template := rfl
  names := h.names

theorem mapM {f : α → Lower β} {N : Bool → α → List String} {as : List α} {bs : List β}
    {st st' : Lowering}
    (h : ∀ a ∈ as, ∀ st b st', f a st = .ok (b, st') → Uses (N st.template.isSome a) st st')
    (hm : as.mapM f st = .ok (bs, st')) : Uses (as.flatMap (N st.template.isSome)) st st' := by
  induction as generalizing st bs with
  | nil =>
    obtain ⟨-, rfl⟩ := Lower.mapM_nil_eq_ok.mp hm
    exact refl st'
  | cons a as ih =>
    obtain ⟨b, st₁, bs', hb, hbs, -⟩ := Lower.mapM_cons_eq_ok.mp hm
    have ha := h a List.mem_cons_self st b st₁ hb
    have has := ih (fun a' ha' => h a' (List.mem_cons_of_mem a ha')) hbs
    rw [ha.template] at has
    exact ha.trans has

end Uses

/-- A piece of markup in a template function uses its instruction. -/
theorem Lower.leaf_uses {options : Options} {s s' : Stmt} {st st' : Lowering}
    (h : leaf options s st = .ok (s', st')) :
    Uses (if st.template.isSome then s.callee?.toList else []) st st' := by
  obtain ⟨used, none | t⟩ := st
  · cases h
    exact .refl _
  · cases hm : s.isMarkup with
    | false =>
      rw [leaf_of_not_markup options hm, pure_eq_ok] at h
      obtain ⟨rfl, rfl⟩ := h
      have hcallee : s.callee? = none := by
        cases s <;> simp_all [Stmt.isMarkup, Stmt.callee?]
      simpa [hcallee] using Uses.refl _
    | true =>
      cases s with
      | elementStart | element =>
        cases h
        exact ⟨rfl, by simp [Lowering.names, Stmt.callee?, Instruction.name, or_comm]⟩
      | elementEnd name span =>
        rw [leaf_elementEnd] at h
        split at h
        · cases h
        · cases h
          exact ⟨rfl, by simp [Lowering.names, Stmt.callee?, Instruction.name, or_comm]⟩
      | expression value =>
        have hl : value.isLiteral = true := hm
        rw [leaf_literal options used t hl] at h
        cases h
        exact ⟨rfl, by simp [Lowering.names, Stmt.callee?, hl, Instruction.name, or_comm]⟩
      | _ => cases hm

/-- A statement calls for the same instruction, whatever is in its arrow blocks and nested in it. -/
theorem Stmt.callee?_rebuilt (s : Stmt) (bs : List (List Stmt)) (ts : List (Option Stmt)) :
    ((s.fill bs).withNested ts).callee? = s.callee? := by
  cases s with
  | expression value => cases value <;> rfl
  | decorator d =>
    cases d
    rfl
  | _ => rfl

/-- The names of the instructions that the functions in a statement need, and the statement itself
if it is in a template function. -/
def Stmt.calleesIn (inTemplate : Bool) (s : Stmt) : List String :=
  s.functions.flatMap callees ++ if inTemplate then s.region.filterMap callee? else []

/-- Statements of one function need what each of them needs. -/
theorem mem_flatMap_calleesIn {inTemplate : Bool} {ss : List Stmt} {n : String} :
    n ∈ ss.flatMap (Stmt.calleesIn inTemplate) ↔ n ∈ (functionsAll ss).flatMap Stmt.callees ∨
      inTemplate = true ∧ n ∈ (regionAll ss).filterMap Stmt.callee? := by
  induction ss with
  | nil => simp [functionsAll, regionAll]
  | cons s ss ih =>
    have hfunctions : functionsAll (s :: ss) = s.functions ++ functionsAll ss := rfl
    have hregion : regionAll (s :: ss) = s.region ++ regionAll ss := rfl
    rw [List.flatMap_cons, List.mem_append, ih, Stmt.calleesIn, hfunctions, hregion,
      List.flatMap_append, List.filterMap_append, List.mem_append, List.mem_append, List.mem_append]
    cases inTemplate with
    | false => simp
    | true =>
      simp only [if_true, true_and]
      exact or_or_or_comm

/-- A function needs what its statements need, in a template function or not. -/
theorem Stmt.mem_calleesIn_function {inTemplate : Bool} {name : String} {params : List String}
    {body : List Stmt} {own : Option Decorator} {n : String} :
    n ∈ calleesIn inTemplate (.function name params body own) ↔
      n ∈ body.flatMap (calleesIn own.isSome) := by
  have hregion : (if inTemplate then (region (.function name params body own)).filterMap callee?
      else []) = [] := by
    rw [region_eq]
    cases inTemplate <;> rfl
  have hfunctions : functions (.function name params body own) =
      .function name params body own :: functionsAll body := functions_eq _
  rw [calleesIn, hregion, List.append_nil, hfunctions, List.flatMap_cons, List.mem_append,
    mem_flatMap_calleesIn]
  cases own with
  | none => simp [callees]
  | some d =>
    simp only [callees, Option.isSome_some, true_and]
    exact or_comm

/-- Any other statement needs what its parts need, and its own instruction in a template function. -/
theorem Stmt.mem_calleesIn {inTemplate : Bool} {s : Stmt} (hf : s.isFunction = false) {n : String} :
    n ∈ s.calleesIn inTemplate ↔
      n ∈ s.arrowBlocks.flatMap (fun b => (functionsAll b).flatMap callees) ++
        s.nested.flatMap (calleesIn inTemplate) ++
        (if inTemplate then s.callee?.toList else []) := by
  rw [List.mem_append, List.mem_append, mem_flatMap_calleesIn, calleesIn, functions_eq, region_eq,
    hf, ← List.flatMap_assoc]
  cases inTemplate with
  | false => simp
  | true =>
    simp
    grind

section

variable {options : Options}

theorem lowerDeep_uses {body body' : List Stmt} {st st' : Lowering}
    (ih : ∀ s ∈ body, ∀ st s' st', s.lower (lowerDeep options) options st = .ok (s', st') →
      Uses (s.calleesIn st.template.isSome) st st')
    (h : lowerDeep options body st = .ok (body', st')) :
    Uses ((functionsAll body).flatMap Stmt.callees) st st' := by
  obtain ⟨st₁, hm, rfl⟩ := lowerDeep_eq_ok.mp h
  refine Uses.within ((Uses.mapM (N := Stmt.calleesIn) ih hm).congr fun n => ?_)
  rw [mem_flatMap_calleesIn]
  exact or_iff_left fun hn => Bool.noConfusion hn.1

/-- Lowering a statement uses the instructions that are needed in it. -/
theorem Stmt.lower_uses (s : Stmt) : ∀ st s' st',
    s.lower (lowerDeep options) options st = .ok (s', st') →
      Uses (s.calleesIn st.template.isSome) st st' := by
  induction s using Stmt.induction with
  | step s ihBlocks ihNested =>
    intro st s' st' h
    cases hf : s.isFunction with
    | true =>
      cases s with
      | function name params body own =>
        obtain ⟨body', st₁, hbody, -, rfl⟩ := lower_function_eq_ok.mp h
        have huses := (Uses.mapM (N := calleesIn) ihNested hbody).within
        rw [Option.isSome_map] at huses
        exact huses.congr fun n => mem_calleesIn_function.symm
      | _ => cases hf
    | false =>
      obtain ⟨bs, st₁, ts, st₂, hbs, hts, hleaf⟩ := (lower_eq_ok hf).mp h
      have hblocks := Uses.mapM (N := fun _ b => (functionsAll b).flatMap callees)
        (fun b hb _ _ _ hb' => lowerDeep_uses (ihBlocks b hb) hb') hbs
      have hnested := Uses.mapM (N := calleesIn) ihNested hts
      have hself := Lower.leaf_uses hleaf
      rw [callee?_rebuilt, hnested.template, hblocks.template] at hself
      rw [hblocks.template] at hnested
      exact ((hblocks.trans hnested).trans hself).congr fun n => (mem_calleesIn hf).symm

end

/-! ### The import -/

theorem Instruction.names_sorted : (all.map name).Pairwise (· < ·) := by decide

/-- The names in the import of instructions are in order, and those of the used instructions. -/
theorem Options.instructionImport_eq (options : Options) (used : List Instruction) :
    ∃ names : List String, names.Pairwise (· < ·) ∧ (∀ n, n ∈ names ↔ n ∈ used.map Instruction.name) ∧
      options.instructionImport used = if names = [] then [] else
        [.import_ none (names.map fun n => ⟨n, n⟩) options.runtimeModule] := by
  refine ⟨(Instruction.all.filter (used.contains ·)).map Instruction.name, ?_, fun n => ?_, ?_⟩
  · exact Instruction.names_sorted.sublist (List.filter_sublist.map _)
  · simp only [List.mem_map, List.mem_filter, List.contains_iff_mem]
    constructor
    · rintro ⟨i, ⟨-, hi⟩, rfl⟩
      exact ⟨i, hi, rfl⟩
    · rintro ⟨i, hi, rfl⟩
      exact ⟨i, ⟨by cases i <;> decide, hi⟩, rfl⟩
  · simp [instructionImport, List.map_map, Function.comp_def]

/-- **The import of instructions.** A program is lowered statement by statement. If its template
functions need no instructions, there is nothing else; if they need some, one import of these from
the runtime module comes first. It has no default, names each instruction once, by its own name, and
the names are in order. A start tag, an end tag, an element and a literal that is a statement need
one instruction each, in the region of any template function that lowering comes by. -/
theorem Program.lowerTemplates_import {p q : Program} {options : Options}
    (h : p.lowerTemplates options = .ok q) :
    ∃ body st, lowerDeep options p.body ⟨[], none⟩ = .ok (body, st) ∧
      body.length = p.body.length ∧
      (p.callees = [] → q.body = body) ∧
      (p.callees ≠ [] → ∃ names : List String, names.Pairwise (· < ·) ∧
        (∀ n, n ∈ names ↔ n ∈ p.callees) ∧
        q.body = .import_ none (names.map fun n => ⟨n, n⟩) options.runtimeModule :: body) := by
  obtain ⟨body, st, hbody, rfl⟩ := lowerTemplates_eq_ok.mp h
  obtain ⟨st₁, hm, -⟩ := lowerDeep_eq_ok.mp hbody
  obtain ⟨names, hsorted, hnames, himport⟩ := options.instructionImport_eq st.used
  have huses := lowerDeep_uses (fun s _ => s.lower_uses) hbody
  have hmem (n) : n ∈ names ↔ n ∈ p.callees := by
    rw [hnames]
    exact (huses.names n).trans (or_iff_right List.not_mem_nil)
  refine ⟨body, st, hbody, Lower.length_of_mapM hm, fun hnone => ?_, fun hsome => ?_⟩
  · obtain rfl : names = [] := List.eq_nil_iff_forall_not_mem.mpr fun n hn => by
      simpa [hnone] using (hmem n).mp hn
    rw [himport]
    rfl
  · obtain ⟨n, hn⟩ := List.exists_mem_of_ne_nil _ hsome
    have hne : names ≠ [] := List.ne_nil_of_mem ((hmem n).mpr hn)
    refine ⟨names, hsorted, hmem, ?_⟩
    rw [himport, if_neg hne]
    rfl

/-- A template function in a plain one, and another one in an arrow block of an attribute in it. -/
def scatteredTemplates : Program :=
  let decorator : Decorator := ⟨"component", [], default⟩
  let inner : Stmt := .function "g" [] [.expression (.string "text" default)] (some decorator)
  let shown : Expr := .arrow [] (.block [inner]) default
  ⟨[.function "f" [] [.function "h" [] [.element "p" [.braced "x" shown] default]
    (some decorator)] none]⟩

theorem lowerTemplates_scatteredTemplates :
    ∃ q body, scatteredTemplates.lowerTemplates {} = .ok q ∧ body.length = 1 ∧
      q.body = .import_ none [⟨"Θelement", "Θelement"⟩, ⟨"Θtext", "Θtext"⟩] "fw-x" :: body := by
  have hok : (scatteredTemplates.lowerTemplates {}).toBool = true := by decide +kernel
  have hcallees : scatteredTemplates.callees = ["Θelement", "Θtext"] := by
    simp [Program.callees, Program.functions, functionsAll, Stmt.functions_eq, Stmt.arrowBlocks,
      Stmt.isFunction, Stmt.nested, scatteredTemplates, attributesArrowBlocks,
      Attribute.arrowBlocks, Expr.arrowBlocks, ArrowBody.arrowBlocks, Stmt.callees, regionAll,
      Stmt.region_eq, Stmt.callee?, Expr.isLiteral]
  cases hq : scatteredTemplates.lowerTemplates {} with
  | error e =>
    rw [hq] at hok
    cases hok
  | ok q =>
    obtain ⟨body, st, -, hlength, -, himport⟩ := Program.lowerTemplates_import hq
    rw [hcallees] at himport
    obtain ⟨names, hsorted, hnames, hbody⟩ := himport (by simp)
    have hall : names = ["Θelement", "Θtext"] :=
      hsorted.eq_of_mem_iff (by decide) hnames
    rw [hall] at hbody
    exact ⟨q, body, rfl, hlength, hbody⟩

/-- A loop that starts with a template function. -/
def templateInLoopStart : Program :=
  ⟨[.for_ (some (.function "f" [] [.element "a" [] default] (some ⟨"T", [], default⟩))) none none
    .empty]⟩

/-- A template function that a loop starts with stays as it is. What it needs is not imported. -/
theorem lowerTemplates_templateInLoopStart :
    templateInLoopStart.lowerTemplates {} = .ok templateInLoopStart ∧
    templateInLoopStart.every (fun _ => true) (fun s => !s.callees.contains "Θelement") = false := by
  constructor
  · rfl
  · simp [templateInLoopStart, Program.every, everyStmt, Stmt.every, everyStmt?, Stmt.callees,
      regionAll, Stmt.region_eq, Stmt.callee?, Stmt.nested]

end MarkupScript
