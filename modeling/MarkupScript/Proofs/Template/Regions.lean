import Mathlib.Data.List.Induction
import MarkupScript.Proofs.Number.Whole
import MarkupScript.Proofs.Template.Lower
import MarkupScript.Proofs.Tree.Elements

/-!
# Indices of instructions

The markup of a template function lies in its region: the statements of its body, with blocks,
branches, loops and exports entered, but neither functions nor arrow blocks nor what loops start
with. Lowering replaces the markup of a region in place. The indices count the pieces of markup that
are no end tags in document order, and an end tag has the index of the start tag it belongs to.

What lowering makes of statements is said by four relations at once, since arrow blocks and functions
lie in statements and are lowered themselves: `PlainLowered` for statements outside of template
functions, `TemplateLowered` for the body of a template function, and `Kept` and `Replaced` for a
single statement of the one and of the other. `Program.lowerTemplates_regions` says that every
template function that lowering comes by is lowered so.
-/

namespace MarkupScript

/-! ### Regions -/

/-- A statement and the statements in it that belong to the same function, in document order. -/
def Stmt.region (s : Stmt) : List Stmt :=
  s :: if s.isFunction then [] else s.nested.attach.flatMap fun ⟨t, _⟩ => t.region
termination_by sizeOf s
decreasing_by exact sizeOf_lt_of_mem_nested ‹t ∈ _›

/-- The region of the body of a function. -/
def regionAll (body : List Stmt) : List Stmt := body.flatMap Stmt.region

theorem Stmt.region_eq (s : Stmt) :
    s.region = s :: if s.isFunction then [] else regionAll s.nested := by
  unfold regionAll
  rw [region]
  simp

/-! ### Indices -/

/-- Whether a statement takes an index of its own: a start tag, an element or a literal. -/
def Stmt.takesIndex : Stmt → Bool
  | .elementStart _ _ _ | .element _ _ _ => true
  | .expression value => value.isLiteral
  | _ => false

/-- The index of the statement at a place of a region: how many indices are taken before it. -/
def indexAt (r : List Stmt) (i : Nat) : Nat := (r.take i).countP Stmt.takesIndex

/-- Statements in which start tags and end tags belong together. -/
inductive Balanced : List Stmt → Prop
  | nil : Balanced []
  | plain {s : Stmt} {ss : List Stmt} : s.isStartOrEnd = false → Balanced ss → Balanced (s :: ss)
  | element {name endName : String} {attributes : List Attribute} {span endSpan : Span}
      {inside behind : List Stmt} : Balanced inside → Balanced behind →
      Balanced (.elementStart name attributes span ::
        (inside ++ .elementEnd endName endSpan :: behind))

/-- At place `i` of a region, the element that starts at place `j` is the one that started last and
has not ended yet: all that started behind it have ended. -/
structure Innermost (r : List Stmt) (j i : Nat) : Prop where
  before : j < i
  isStart : ∃ name attributes span, r[j]? = some (.elementStart name attributes span)
  ended : Balanced ((r.take i).drop (j + 1))

/-! ### Calls -/

/-- The name and value of an attribute. -/
def Attribute.parts (span : Span) : Attribute → List Expr
  | .bare name => [.string name span, .string "" span]
  | .text name value => [.string name span, .string value span]
  | .braced name value => [.string name span, value]

/-- The name of an element and, if it has attributes, the list of their names and values. -/
def elementParts (name : String) (attributes : List Attribute) (span : Span) : List Expr :=
  match attributes with
  | [] => [.string name span]
  | _ => [.string name span, .array (attributes.flatMap (·.parts span)) span]

/-- A call of a function with the render context, a number and further arguments. -/
def numberedCall (options : Options) (callee : String) (number : Double) (rest : List Expr)
    (span : Span) : Stmt :=
  let context : Expr := .identifier options.renderContext span
  .expression (.call (.identifier callee span) (context :: .number number span :: rest) span)

theorem attributeItems_eq (span : Span) (attributes : List Attribute) :
    attributeItems span attributes = attributes.flatMap (·.parts span) := by
  induction attributes with
  | nil => rfl
  | cons a as ih => cases a <;> simp [attributeItems, Attribute.parts, ih]

theorem elementArguments_eq (name : String) (attributes : List Attribute) (span : Span) :
    elementArguments name attributes span = elementParts name attributes span := by
  cases attributes with
  | nil => rfl
  | cons a as => simp [elementArguments, elementParts, attributeItems_eq]

/-! ### Replacing markup -/

mutual

/-- Statements outside of template functions and what they are lowered to: all of them are kept. -/
inductive PlainLowered (options : Options) : List Stmt → List Stmt → Prop
  | intro {body body' : List Stmt} :
      List.Forall₂ (Kept options) (regionAll body) (regionAll body') →
      PlainLowered options body body'

/-- The body of a template function and what it is lowered to: the same number of statements in the
region, each replaced in its place, and no markup left. -/
inductive TemplateLowered (options : Options) : List Stmt → List Stmt → Prop
  | intro {body body' : List Stmt}
      (length_eq : (regionAll body').length = (regionAll body).length)
      (replaced : ∀ i s s', (regionAll body)[i]? = some s → (regionAll body')[i]? = some s' →
        Replaced options (indexAt (regionAll body) i)
          (fun k => ∃ j, Innermost (regionAll body) j i ∧ k = indexAt (regionAll body) j) s s')
      (noMarkup : ∀ s' ∈ regionAll body', s'.isMarkup = false) :
      TemplateLowered options body body'

/-- A statement that is still there. A function has its name and its lowered body, and a template
function the render context as a further parameter and no decorator. Anything else has its lowered
arrow blocks, and as many statements nested in it. -/
inductive Kept (options : Options) : Stmt → Stmt → Prop
  | template {name : String} {params : List String} {body body' : List Stmt} {d : Decorator} :
      TemplateLowered options body body' →
      Kept options (.function name params body (some d))
        (.function name (options.renderContext :: params) body' none)
  | plain {name : String} {params : List String} {body body' : List Stmt} :
      PlainLowered options body body' →
      Kept options (.function name params body none) (.function name params body' none)
  | rebuilt {s : Stmt} {bs : List (List Stmt)} {ts : List Stmt} : s.isFunction = false →
      List.Forall₂ (PlainLowered options) s.arrowBlocks bs → ts.length = s.nested.length →
      Kept options s ((s.fill bs).withNested (ts.map some))

/-- What comes in the place of a statement in a template function. It has the given index if it takes
one, and if it ends an element, then one with an index for which `isOpen` holds. The values of
attributes are kept, with their arrow blocks lowered. -/
inductive Replaced (options : Options) : (index : Nat) → (isOpen : Nat → Prop) → Stmt → Stmt → Prop
  | elementStart {index : Nat} {isOpen : Nat → Prop} {name : String} {attributes : List Attribute}
      {span : Span} {number : Double} {bs : List (List Stmt)} : number.Counts index →
      List.Forall₂ (PlainLowered options) (attributesArrowBlocks attributes) bs →
      Replaced options index isOpen (.elementStart name attributes span)
        (numberedCall options "ΘelementStart" number
          (elementParts name (attributesFill attributes bs) span) span)
  | element {index : Nat} {isOpen : Nat → Prop} {name : String} {attributes : List Attribute}
      {span : Span} {number : Double} {bs : List (List Stmt)} : number.Counts index →
      List.Forall₂ (PlainLowered options) (attributesArrowBlocks attributes) bs →
      Replaced options index isOpen (.element name attributes span)
        (numberedCall options "Θelement" number
          (elementParts name (attributesFill attributes bs) span) span)
  | text {index : Nat} {isOpen : Nat → Prop} {value : Expr} {number : Double} :
      number.Counts index → value.isLiteral = true →
      Replaced options index isOpen (.expression value)
        (numberedCall options "Θtext" number [value] value.span)
  | elementEnd {index : Nat} {isOpen : Nat → Prop} {name : String} {span : Span} {k : Nat}
      {number : Double} : isOpen k → number.Counts k →
      Replaced options index isOpen (.elementEnd name span)
        (numberedCall options "ΘelementEnd" number [] span)
  | kept {index : Nat} {isOpen : Nat → Prop} {s s' : Stmt} : s.isMarkup = false →
      Kept options s s' → Replaced options index isOpen s s'

end

theorem Replaced.mono {options : Options} {index : Nat} {isOpen isOpen' : Nat → Prop} {s s' : Stmt}
    (h : Replaced options index isOpen s s') (himp : ∀ k, isOpen k → isOpen' k) :
    Replaced options index isOpen' s s' := by
  cases h with
  | elementStart hnumber hbs => exact .elementStart hnumber hbs
  | element hnumber hbs => exact .element hnumber hbs
  | text hnumber hl => exact .text hnumber hl
  | elementEnd hk hnumber => exact .elementEnd (himp _ hk) hnumber
  | kept hm hk => exact .kept hm hk

theorem Stmt.isMarkup_rebuilt {s : Stmt} (h : s.isMarkup = false) (bs : List (List Stmt))
    (ts : List (Option Stmt)) : ((s.fill bs).withNested ts).isMarkup = false := by
  cases s with
  | elementStart | elementEnd | element => cases h
  | expression value =>
    cases value with
    | number | string | boolean | null => cases h
    | _ => rfl
  | decorator d =>
    cases d
    rfl
  | _ => rfl

/-- No markup is left. -/
theorem Replaced.isMarkup {options : Options} {index : Nat} {isOpen : Nat → Prop} {s s' : Stmt}
    (h : Replaced options index isOpen s s') : s'.isMarkup = false := by
  cases h with
  | kept hm hk =>
    cases hk with
    | template | plain => rfl
    | rebuilt => exact Stmt.isMarkup_rebuilt hm _ _
  | _ => rfl

/-! ### Through a region -/

/-- A template function behind a statement of its region. -/
def Template.behind (t : Template) (s : Stmt) : Template where
  function := t.function
  nextIndex := if s.takesIndex then t.nextIndex + 1 else t.nextIndex
  openElements :=
    match s with
    | .elementStart _ _ _ => t.nextIndex :: t.openElements
    | .elementEnd _ _ => t.openElements.tail
    | _ => t.openElements

theorem Template.behind_of_not_markup (t : Template) {s : Stmt} (h : s.isMarkup = false) :
    t.behind s = t := by
  cases s with
  | elementStart | elementEnd | element => cases h
  | expression value =>
    have hl : value.isLiteral = false := h
    simp [behind, Stmt.takesIndex, hl]
  | _ => rfl

/-- The statements of a region are replaced one after the other. -/
def ReplacedFrom (options : Options) : Template → List Stmt → List Stmt → Prop
  | _, [], [] => True
  | t, s :: r, s' :: r' =>
    Replaced options t.nextIndex (· ∈ t.openElements.head?) s s' ∧
      ReplacedFrom options (t.behind s) r r'
  | _, _, _ => False

theorem ReplacedFrom.append {options : Options} {t : Template} {r₁ r₁' r₂ r₂' : List Stmt}
    (h₁ : ReplacedFrom options t r₁ r₁')
    (h₂ : ReplacedFrom options (r₁.foldl Template.behind t) r₂ r₂') :
    ReplacedFrom options t (r₁ ++ r₂) (r₁' ++ r₂') := by
  induction r₁ generalizing t r₁' with
  | nil =>
    cases r₁' with
    | nil => exact h₂
    | cons => cases h₁
  | cons s r₁ ih =>
    cases r₁' with
    | nil => cases h₁
    | cons s' r₁' => exact ⟨h₁.1, ih h₁.2 h₂⟩

theorem ReplacedFrom.length_eq {options : Options} {t : Template} {r r' : List Stmt}
    (h : ReplacedFrom options t r r') : r'.length = r.length := by
  induction r generalizing t r' with
  | nil =>
    cases r' with
    | nil => rfl
    | cons => cases h
  | cons s r ih =>
    cases r' with
    | nil => cases h
    | cons s' r' => simp [ih h.2]

/-- What is replaced at a place of a region. -/
theorem ReplacedFrom.at {options : Options} {t : Template} {r r' : List Stmt}
    (h : ReplacedFrom options t r r') {i : Nat} {s s' : Stmt} (hs : r[i]? = some s)
    (hs' : r'[i]? = some s') :
    Replaced options ((r.take i).foldl Template.behind t).nextIndex
      (· ∈ ((r.take i).foldl Template.behind t).openElements.head?) s s' := by
  induction r generalizing t r' i with
  | nil => cases hs
  | cons u r ih =>
    cases r' with
    | nil => cases h
    | cons u' r' =>
      cases i with
      | zero =>
        cases hs
        cases hs'
        exact h.1
      | succ i => exact ih h.2 hs hs'

/-! ### Which elements are open -/

theorem Template.nextIndex_foldl_behind (t : Template) (r : List Stmt) :
    (r.foldl behind t).nextIndex = t.nextIndex + r.countP Stmt.takesIndex := by
  induction r generalizing t with
  | nil => rfl
  | cons s r ih =>
    rw [List.foldl_cons, ih, List.countP_cons]
    simp only [behind]
    split <;> omega

theorem Balanced.append {r₁ r₂ : List Stmt} (h₁ : Balanced r₁) (h₂ : Balanced r₂) :
    Balanced (r₁ ++ r₂) := by
  induction h₁ with
  | nil => exact h₂
  | plain hs _ ih => exact .plain hs ih
  | element hinside _ _ ih =>
    rw [List.cons_append, List.append_assoc, List.cons_append]
    exact .element hinside ih

/-- The elements with these indices are open behind statements, innermost first. -/
def OpenBehind : List Nat → List Stmt → Prop
  | [], _ => True
  | k :: outer, r => ∃ r₁ r₂ name attributes span,
    r = r₁ ++ .elementStart name attributes span :: r₂ ∧ Balanced r₂ ∧
      k = r₁.countP Stmt.takesIndex ∧ OpenBehind outer r₁

theorem OpenBehind.append {o : List Nat} {r w : List Stmt} (h : OpenBehind o r) (hw : Balanced w) :
    OpenBehind o (r ++ w) := by
  cases o with
  | nil => trivial
  | cons k outer =>
    obtain ⟨r₁, r₂, name, attributes, span, rfl, hr₂, hk, houter⟩ := h
    exact ⟨r₁, r₂ ++ w, name, attributes, span, by simp, hr₂.append hw, hk, houter⟩

/-- One statement further, the open elements are still those that are known to be open. -/
theorem OpenBehind.step {t : Template} {r : List Stmt} (h : OpenBehind t.openElements r)
    (hn : t.nextIndex = r.countP Stmt.takesIndex) (s : Stmt) :
    OpenBehind (t.behind s).openElements (r ++ [s]) := by
  cases ht : s.isStartOrEnd with
  | false =>
    have hopen : (t.behind s).openElements = t.openElements := by
      cases s <;> first | rfl | cases ht
    rw [hopen]
    exact h.append (.plain ht .nil)
  | true =>
    cases s with
    | elementStart name attributes span =>
      exact ⟨r, [], name, attributes, span, rfl, .nil, hn, h⟩
    | elementEnd name span =>
      obtain ⟨function, nextIndex, openElements⟩ := t
      cases openElements with
      | nil => trivial
      | cons k outer =>
        obtain ⟨r₁, r₂, name', attributes, span', rfl, hr₂, -, houter⟩ := h
        have hpair : Balanced (.elementStart name' attributes span' ::
            (r₂ ++ [.elementEnd name span])) := .element hr₂ .nil
        simpa [Template.behind] using houter.append hpair
    | _ => cases ht

/-- Along a region, the open elements are those that started and have not ended. -/
theorem openBehind_foldl (function : String) (r : List Stmt) :
    OpenBehind (r.foldl Template.behind ⟨function, 0, []⟩).openElements r := by
  induction r using List.reverseRecOn with
  | nil => trivial
  | append_singleton r s ih =>
    rw [List.foldl_append]
    refine ih.step ?_ s
    rw [Template.nextIndex_foldl_behind, Nat.zero_add]

/-- The innermost open element is the one that started last and has not ended. -/
theorem innermost_of_openBehind {r : List Stmt} {i k : Nat} {outer : List Nat}
    (h : OpenBehind (k :: outer) (r.take i)) : ∃ j, Innermost r j i ∧ k = indexAt r j := by
  obtain ⟨r₁, r₂, name, attributes, span, hr, hr₂, rfl, -⟩ := h
  have hlen : r₁.length < i := by
    have := congrArg List.length hr
    simp only [List.length_take, List.length_append, List.length_cons] at this
    omega
  refine ⟨r₁.length, ⟨hlen, ⟨name, attributes, span, ?_⟩, ?_⟩, ?_⟩
  · rw [← List.getElem?_take_of_lt hlen, hr]
    simp
  · rw [hr, ← List.drop_drop]
    simpa using hr₂
  · rw [indexAt, ← Nat.min_eq_left (Nat.le_of_lt hlen), ← List.take_take, hr]
    simp

/-! ### Lowering goes through regions -/

theorem exprsArrowBlocks_append (es es' : List Expr) :
    exprsArrowBlocks (es ++ es') = exprsArrowBlocks es ++ exprsArrowBlocks es' := by
  induction es with
  | nil => rfl
  | cons e es ih => simp [exprsArrowBlocks, ih]

theorem exprsArrowBlocks_parts (span : Span) (attributes : List Attribute) :
    exprsArrowBlocks (attributes.flatMap (·.parts span)) = attributesArrowBlocks attributes := by
  induction attributes with
  | nil => rfl
  | cons a as ih =>
    have ha : exprsArrowBlocks (a.parts span) = a.arrowBlocks := by
      cases a <;> simp [Attribute.parts, exprsArrowBlocks, Expr.arrowBlocks, Attribute.arrowBlocks]
    rw [List.flatMap_cons, exprsArrowBlocks_append, ha, ih]
    rfl

/-- An instruction has the arrow blocks of the element it stands for. -/
theorem arrowBlocks_elementCall (options : Options) (callee : String) (number : Double)
    (name : String) (attributes : List Attribute) (span : Span) :
    (numberedCall options callee number (elementParts name attributes span) span).arrowBlocks =
      attributesArrowBlocks attributes := by
  cases attributes with
  | nil => rfl
  | cons a as =>
    simp only [numberedCall, elementParts, Stmt.arrowBlocks, Expr.arrowBlocks, exprsArrowBlocks,
      exprsArrowBlocks_parts, List.nil_append, List.append_nil]

/-- A piece of markup in a template function is replaced by a call that has its arrow blocks. -/
theorem Lower.leaf_markup {options : Options} {s s' : Stmt} {bs : List (List Stmt)}
    {used : List Instruction} {t : Template} {st' : Lowering} (hm : s.isMarkup = true)
    (hbs : List.Forall₂ (PlainLowered options) s.arrowBlocks bs)
    (h : leaf options (s.fill bs) ⟨used, some t⟩ = .ok (s', st')) :
    Replaced options t.nextIndex (· ∈ t.openElements.head?) s s' ∧
      st'.template = some (t.behind s) ∧ s'.arrowBlocks = bs ∧ s'.nested = [] ∧
      s'.isFunction = false := by
  have hlength : bs.length = s.arrowBlocks.length := hbs.length_eq.symm
  cases s with
  | elementStart name attributes span =>
    rw [Stmt.fill, leaf_elementStart, elementArguments_eq] at h
    cases h
    refine ⟨.elementStart (Double.counts_ofNat _) hbs, rfl, ?_, rfl, rfl⟩
    exact (arrowBlocks_elementCall ..).trans (attributesArrowBlocks_fill hlength)
  | element name attributes span =>
    rw [Stmt.fill, leaf_element, elementArguments_eq] at h
    cases h
    refine ⟨.element (Double.counts_ofNat _) hbs, rfl, ?_, rfl, rfl⟩
    exact (arrowBlocks_elementCall ..).trans (attributesArrowBlocks_fill hlength)
  | elementEnd name span =>
    obtain rfl := List.eq_nil_of_length_eq_zero hlength
    obtain ⟨function, nextIndex, openElements⟩ := t
    cases openElements with
    | nil => cases h
    | cons k outer =>
      cases h
      exact ⟨.elementEnd rfl (Double.counts_ofNat k), rfl, rfl, rfl, rfl⟩
  | expression value =>
    have hl : value.isLiteral = true := hm
    have hvalue : value.fill bs = value ∧ value.arrowBlocks = [] := by
      cases value <;> first | exact ⟨rfl, rfl⟩ | cases hl
    rw [Stmt.fill, hvalue.1, leaf_literal options used t hl] at h
    cases h
    rw [Stmt.arrowBlocks, hvalue.2] at hlength
    obtain rfl := List.eq_nil_of_length_eq_zero hlength
    refine ⟨.text (Double.counts_ofNat _) hl, by simp [Template.behind, Stmt.takesIndex, hl], ?_,
      rfl, rfl⟩
    simp [Options.instructionCall, Stmt.arrowBlocks, Expr.arrowBlocks, exprsArrowBlocks, hvalue.2]
  | _ => cases hm

/-- Markup has no statements nested in it. -/
theorem Stmt.nested_of_isMarkup {s : Stmt} (h : s.isMarkup = true) : s.nested = [] := by
  cases s <;> first | rfl | cases h

theorem Stmt.withNested_of_isMarkup {s : Stmt} (h : s.isMarkup = true) (bs : List (List Stmt)) :
    (s.fill bs).withNested [] = s.fill bs := by
  cases s <;> first | rfl | cases h

/-- Outside of template functions, and for what is no markup, there is nothing to do. -/
theorem Lower.leaf_of_plain (options : Options) {s : Stmt} {st : Lowering}
    (h : st.template = none ∨ s.isMarkup = false) : leaf options s st = .ok (s, st) := by
  rcases h with hnone | hm
  · obtain ⟨used, template⟩ := st
    cases hnone
    rfl
  · exact congrFun (leaf_of_not_markup options hm) st

theorem ReplacedFrom.templateLowered {options : Options} {function : String}
    {body body' : List Stmt}
    (h : ReplacedFrom options ⟨function, 0, []⟩ (regionAll body) (regionAll body')) :
    TemplateLowered options body body' := by
  refine .intro h.length_eq (fun i s s' hs hs' => ?_) fun s' hs' => ?_
  · have hopen := openBehind_foldl function ((regionAll body).take i)
    have hat := h.at hs hs'
    rw [Template.nextIndex_foldl_behind, Nat.zero_add] at hat
    refine hat.mono fun k hk => ?_
    obtain ⟨outer, houter⟩ := List.head?_eq_some_iff.mp hk
    rw [houter] at hopen
    exact innermost_of_openBehind hopen
  · obtain ⟨i, hi, rfl⟩ := List.getElem_of_mem hs'
    have hi' : i < (regionAll body).length := h.length_eq ▸ hi
    exact (h.at (List.getElem?_eq_getElem hi') (List.getElem?_eq_getElem hi)).isMarkup

section

variable {options : Options}

theorem template_of_mapM_lowerDeep {bs bs' : List (List Stmt)} {st st' : Lowering}
    (h : bs.mapM (lowerDeep options) st = .ok (bs', st')) : st'.template = st.template := by
  induction bs generalizing st bs' with
  | nil => rw [(Lower.mapM_nil_eq_ok.mp h).2]
  | cons b bs ih =>
    obtain ⟨b', st₁, bs', hb, hbs, rfl⟩ := Lower.mapM_cons_eq_ok.mp h
    obtain ⟨st₂, -, rfl⟩ := lowerDeep_eq_ok.mp hb
    rw [ih hbs]

/-- What statements of a region are lowered to, from inside a template function on or outside of
any. -/
def RegionLowered (options : Options) : Option Template → List Stmt → List Stmt → Prop
  | none, r, r' => List.Forall₂ (Kept options) r r'
  | some t, r, r' => ReplacedFrom options t r r'

/-- The template function behind statements of a region, if it is in one. -/
def Template.behindAll (template : Option Template) (r : List Stmt) : Option Template :=
  template.map fun t => r.foldl Template.behind t

@[simp] theorem Template.behindAll_nil (template : Option Template) :
    behindAll template [] = template := by
  cases template <;> rfl

theorem RegionLowered.nil (template : Option Template) : RegionLowered options template [] [] := by
  cases template with
  | none => exact List.Forall₂.nil
  | some t => trivial

theorem RegionLowered.append {template : Option Template} {r₁ r₁' r₂ r₂' : List Stmt}
    (h₁ : RegionLowered options template r₁ r₁')
    (h₂ : RegionLowered options (Template.behindAll template r₁) r₂ r₂') :
    RegionLowered options template (r₁ ++ r₂) (r₁' ++ r₂') := by
  cases template with
  | none => exact List.rel_append h₁ h₂
  | some t => exact ReplacedFrom.append h₁ h₂

/-- A statement that is kept in front of others. -/
theorem RegionLowered.cons {template : Option Template} {s s' : Stmt} {r r' : List Stmt}
    (hs : template = none ∨ s.isMarkup = false) (hkept : Kept options s s')
    (hr : RegionLowered options template r r') :
    RegionLowered options template (s :: r) (s' :: r') ∧
      Template.behindAll template (s :: r) = Template.behindAll template r := by
  cases template with
  | none => exact ⟨List.Forall₂.cons hkept hr, rfl⟩
  | some t =>
    have hm : s.isMarkup = false := hs.resolve_left (by simp)
    refine ⟨⟨.kept hm hkept, ?_⟩, ?_⟩
    · rwa [t.behind_of_not_markup hm]
    · simp [Template.behindAll, t.behind_of_not_markup hm]

/-- From a template function on, or outside of any, lowering takes statements with the region `r` to
statements with the region `r'`. -/
def LowersRegion (options : Options) (r r' : List Stmt) (template : Option Template)
    (st' : Lowering) : Prop :=
  RegionLowered options template r r' ∧ st'.template = Template.behindAll template r

theorem mapM_lower_region {inner : List Stmt → Lower (List Stmt)} {ss ss' : List Stmt}
    {st st' : Lowering}
    (ih : ∀ s ∈ ss, ∀ st s' st', s.lower inner options st = .ok (s', st') →
      LowersRegion options s.region s'.region st.template st')
    (h : ss.mapM (Stmt.lower inner options) st = .ok (ss', st')) :
    LowersRegion options (regionAll ss) (regionAll ss') st.template st' := by
  induction ss generalizing st ss' with
  | nil =>
    obtain ⟨rfl, rfl⟩ := Lower.mapM_nil_eq_ok.mp h
    exact ⟨.nil _, (Template.behindAll_nil _).symm⟩
  | cons s ss ihs =>
    obtain ⟨s', st₁, ss', hs, hss, rfl⟩ := Lower.mapM_cons_eq_ok.mp h
    obtain ⟨hr, ht⟩ := ih s List.mem_cons_self st s' st₁ hs
    obtain ⟨hr', ht'⟩ := ihs (fun s' hs' => ih s' (List.mem_cons_of_mem s hs')) hss
    rw [ht] at hr' ht'
    simp only [regionAll, List.flatMap_cons] at hr' ht' ⊢
    refine ⟨hr.append hr', ht'.trans ?_⟩
    cases st.template <;> simp [Template.behindAll]

/-- An arrow block is outside of template functions. -/
theorem plainLowered_of_lowerDeep {b b' : List Stmt} {st st' : Lowering}
    (ih : ∀ s ∈ b, ∀ st s' st', s.lower (lowerDeep options) options st = .ok (s', st') →
      LowersRegion options s.region s'.region st.template st')
    (h : lowerDeep options b st = .ok (b', st')) : PlainLowered options b b' := by
  obtain ⟨st₁, hb, -⟩ := lowerDeep_eq_ok.mp h
  exact .intro (mapM_lower_region ih hb).1

/-- Lowering a statement goes through its region. -/
theorem Stmt.lower_region (s : Stmt) : ∀ st s' st',
    s.lower (lowerDeep options) options st = .ok (s', st') →
      LowersRegion options s.region s'.region st.template st' := by
  induction s using Stmt.induction with
  | step s ihBlocks ih =>
    intro st s' st' h
    rw [region_eq s, region_eq s']
    cases hf : s.isFunction with
    | true =>
      cases s with
      | function name params body own =>
        obtain ⟨body', st₁, hbody, rfl, rfl⟩ := lower_function_eq_ok.mp h
        have hregion := (mapM_lower_region ih hbody).1
        have hkept : Kept options (.function name params body own)
            (.function name (own.elim params fun _ => options.renderContext :: params) body'
              none) := by
          cases own with
          | none => exact .plain (.intro hregion)
          | some d => exact .template (ReplacedFrom.templateLowered hregion)
        obtain ⟨hr, hbehind⟩ := RegionLowered.cons (.inr rfl) hkept (.nil st.template)
        exact ⟨hr, (hbehind.trans (Template.behindAll_nil _)).symm⟩
      | _ => cases hf
    | false =>
      obtain ⟨bs, st₁, ts, st₂, hbs, hts, hleaf⟩ := (lower_eq_ok hf).mp h
      have ht₁ : st₁.template = st.template := template_of_mapM_lowerDeep hbs
      have hblocks : List.Forall₂ (PlainLowered options) s.arrowBlocks bs :=
        Lower.forall₂_of_mapM (fun b hb _ _ _ => plainLowered_of_lowerDeep (ihBlocks b hb)) hbs
      have hlength := Lower.length_of_mapM hts
      -- Only markup in a template function is replaced. All else is put together again.
      by_cases hplain : st.template = none ∨ s.isMarkup = false
      · obtain ⟨hr, ht₂⟩ := mapM_lower_region ih hts
        rw [ht₁] at hr ht₂
        have hnone (h : st.template = none) : st₂.template = none := by
          rw [ht₂, h]
          rfl
        have hpure := Lower.leaf_of_plain options
          (hplain.imp hnone fun hm => isMarkup_rebuilt hm bs (ts.map some))
        rw [hpure] at hleaf
        cases hleaf
        obtain ⟨hr, hbehind⟩ := RegionLowered.cons hplain (.rebuilt hf hblocks hlength) hr
        rw [isFunction_withNested, isFunction_fill, hf,
          nested_withNested_some (by rw [nested_fill, hlength])]
        exact ⟨hr, ht₂.trans hbehind.symm⟩
      · obtain ⟨hsome, hm⟩ := not_or.mp hplain
        have hm : s.isMarkup = true := by simpa using hm
        obtain ⟨t, ht⟩ := Option.ne_none_iff_exists'.mp hsome
        rw [nested_of_isMarkup hm] at hts
        obtain ⟨rfl, rfl⟩ := Lower.mapM_nil_eq_ok.mp hts
        rw [List.map_nil, withNested_of_isMarkup hm] at hleaf
        obtain ⟨used, template⟩ := st₂
        rw [ht] at ht₁ ⊢
        cases ht₁
        obtain ⟨hs', ht', -, hnested, hf'⟩ := Lower.leaf_markup hm hblocks hleaf
        rw [nested_of_isMarkup hm, hnested, hf']
        exact ⟨⟨hs', trivial⟩, ht'⟩

end

/-! ### All template functions -/

/-- The functions in a statement that lowering comes by, in document order. -/
def Stmt.functions (s : Stmt) : List Stmt := (s.walk true).filter isFunction

/-- The functions in statements that lowering comes by. -/
def functionsAll (ss : List Stmt) : List Stmt := ss.flatMap Stmt.functions

/-- The functions of a program that lowering comes by. -/
def Program.functions (p : Program) : List Stmt := functionsAll p.body

theorem Stmt.functions_eq (s : Stmt) : s.functions = s.arrowBlocks.flatMap functionsAll ++
    ((if s.isFunction then [s] else []) ++ functionsAll s.nested) := by
  have hall : functionsAll = fun ss => (walkAll true ss).filter isFunction :=
    funext fun ss => by rw [walkAll, List.filter_flatMap]; rfl
  have hentered : s.entered true = s.arrowBlocks := by simp [entered]
  rw [functions, walk_eq, hentered, List.filter_append, List.filter_flatMap, List.filter_cons, hall]
  split <;> rfl

section

variable {options : Options}

/-- A statement is lowered to another one, in some state. -/
def LowersTo (options : Options) (s s' : Stmt) : Prop :=
  ∃ st st', s.lower (lowerDeep options) options st = .ok (s', st')

/-- Unless it is a function, what a statement is lowered to has the lowered arrow blocks of the
statement and holds its lowered statements. -/
theorem Stmt.lower_parts {s s' : Stmt} {st st' : Lowering} (hf : s.isFunction = false)
    (h : s.lower (lowerDeep options) options st = .ok (s', st')) :
    s'.isFunction = false ∧
    (∃ st₁ st₂, s.arrowBlocks.mapM (lowerDeep options) st₁ = .ok (s'.arrowBlocks, st₂)) ∧
    ∃ st₁ st₂, s.nested.mapM (lower (lowerDeep options) options) st₁ = .ok (s'.nested, st₂) := by
  obtain ⟨bs, st₁, ts, st₂, hbs, hts, hleaf⟩ := (lower_eq_ok hf).mp h
  have hplain : List.Forall₂ (PlainLowered options) s.arrowBlocks bs :=
    Lower.forall₂_of_mapM (fun _ _ _ _ _ => plainLowered_of_lowerDeep fun t _ => t.lower_region) hbs
  have hlenB := Lower.length_of_mapM hbs
  have hlenT := Lower.length_of_mapM hts
  obtain ⟨hf', rfl, rfl⟩ : s'.isFunction = false ∧ s'.arrowBlocks = bs ∧ s'.nested = ts := by
    by_cases hplain₂ : st₂.template = none ∨ s.isMarkup = false
    · have hpure := Lower.leaf_of_plain options
        (hplain₂.imp_right fun hm => isMarkup_rebuilt hm bs (ts.map some))
      rw [hpure] at hleaf
      cases hleaf
      rw [isFunction_withNested, isFunction_fill, arrowBlocks_withNested,
        s.arrowBlocks_fill bs hlenB, nested_withNested_some (by rw [nested_fill, hlenT])]
      exact ⟨hf, rfl, rfl⟩
    · obtain ⟨hsome, hm⟩ := not_or.mp hplain₂
      have hm : s.isMarkup = true := by simpa using hm
      obtain ⟨used, none | t⟩ := st₂
      · exact absurd rfl hsome
      · rw [nested_of_isMarkup hm] at hlenT
        obtain rfl := List.eq_nil_of_length_eq_zero hlenT
        rw [List.map_nil, withNested_of_isMarkup hm] at hleaf
        obtain ⟨-, -, hblocks, hnested, hf'⟩ := Lower.leaf_markup hm hplain hleaf
        exact ⟨hf', hblocks, hnested⟩
  exact ⟨hf', ⟨_, _, hbs⟩, _, _, hts⟩

theorem functionsAll_lowersTo {ss ss' : List Stmt} {st st' : Lowering}
    (ih : ∀ s ∈ ss, ∀ st s' st', s.lower (lowerDeep options) options st = .ok (s', st') →
      List.Forall₂ (LowersTo options) s.functions s'.functions)
    (h : ss.mapM (Stmt.lower (lowerDeep options) options) st = .ok (ss', st')) :
    List.Forall₂ (LowersTo options) (functionsAll ss) (functionsAll ss') :=
  List.rel_flatMap (Lower.forall₂_of_mapM (R := fun s s' =>
    List.Forall₂ (LowersTo options) s.functions s'.functions) ih h) fun _ _ hs => hs

/-- The functions in what a statement is lowered to are its lowered functions. -/
theorem Stmt.functions_lowersTo (s : Stmt) : ∀ st s' st',
    s.lower (lowerDeep options) options st = .ok (s', st') →
      List.Forall₂ (LowersTo options) s.functions s'.functions := by
  induction s using Stmt.induction with
  | step s ihBlocks ihNested =>
    intro st s' st' h
    rw [functions_eq s, functions_eq s']
    cases hf : s.isFunction with
    | true =>
      cases s with
      | function name params body own =>
        obtain ⟨body', st₁, hbody, rfl, -⟩ := lower_function_eq_ok.mp h
        exact .cons ⟨st, st', h⟩ (functionsAll_lowersTo ihNested hbody)
      | _ => cases hf
    | false =>
      obtain ⟨hf', ⟨_, _, hbs⟩, _, _, hts⟩ := lower_parts hf h
      have hblocks := Lower.forall₂_of_mapM (R := fun b b' =>
          List.Forall₂ (LowersTo options) (functionsAll b) (functionsAll b'))
        (fun b hb _ b' _ hb' => by
          obtain ⟨_, hm, -⟩ := lowerDeep_eq_ok.mp hb'
          exact functionsAll_lowersTo (ihBlocks b hb) hm) hbs
      rw [hf']
      exact List.rel_append (List.rel_flatMap hblocks fun _ _ hb => hb)
        (functionsAll_lowersTo ihNested hts)

end

/-- **Indices in template functions.** Take the functions that lowering comes by, in document order,
before and after it. A template function has the render context as a further parameter and no
decorator, and the statements of its region are replaced in place: start tags, elements and literals
by calls whose indices count up from zero in document order, and end tags by calls with the index of
the element that started last and has not ended. The number in a call is its index, up to `2⁵³`. A
call of an element is told its name and, if there are any, its attributes by name and value, with
their arrow blocks lowered. Markup is not left in the region. -/
theorem Program.lowerTemplates_regions {p q : Program} {options : Options}
    (h : p.lowerTemplates options = .ok q) :
    List.Forall₂ (fun f f' => ∀ name params body d, f = .function name params body (some d) →
      ∃ body', f' = .function name (options.renderContext :: params) body' none ∧
        TemplateLowered options body body') p.functions q.functions := by
  obtain ⟨body, st, hbody, rfl⟩ := lowerTemplates_eq_ok.mp h
  obtain ⟨st₁, hm, -⟩ := lowerDeep_eq_ok.mp hbody
  have himport : functionsAll (options.instructionImport st.used) = [] := by
    simp only [Options.instructionImport]
    split
    · rfl
    · simp [functionsAll, Stmt.functions_eq, Stmt.arrowBlocks, Stmt.isFunction, Stmt.nested]
  have hfunctions := functionsAll_lowersTo (fun s _ => s.functions_lowersTo) hm
  have hq : Program.functions ⟨options.instructionImport st.used ++ body⟩ = functionsAll body := by
    rw [functions, functionsAll, List.flatMap_append]
    exact congrArg (· ++ functionsAll body) himport
  rw [hq]
  refine hfunctions.imp ?_
  rintro _ f' ⟨st₂, st₃, hf⟩ name params body d rfl
  obtain ⟨body', st₄, hlower, rfl, -⟩ := Stmt.lower_function_eq_ok.mp hf
  have hregion := (mapM_lower_region (fun s _ => s.lower_region) hlower).1
  exact ⟨body', rfl, ReplacedFrom.templateLowered hregion⟩

/-- `<p x y={() => { <b/> }}> if (a) "text" <q> </q> </p>` -/
def nestedElements : List Stmt :=
  let callback : Expr := .arrow [] (.block [.element "b" [] default]) default
  [.elementStart "p" [.bare "x", .braced "y" callback] default,
    .if_ (.identifier "a" default) (.expression (.string "text" default)) none,
    .elementStart "q" [] default, .elementEnd "q" default, .elementEnd "p" default]

/-- A template function with these elements. -/
def nestedTemplate : Program :=
  ⟨[.function "f" ["a"] nestedElements (some ⟨"component", [], default⟩)]⟩

theorem lowerTemplates_nestedTemplate :
    ∃ q body', nestedTemplate.lowerTemplates {} = .ok q ∧
      q.functions = [.function "f" ["$renderContext", "a"] body' none] ∧
      TemplateLowered {} nestedElements body' := by
  have hok : (nestedTemplate.lowerTemplates {}).toBool = true := by decide +kernel
  have hfunctions : nestedTemplate.functions = nestedTemplate.body := by
    simp [Program.functions, functionsAll, Stmt.functions_eq, Stmt.arrowBlocks, Stmt.isFunction,
      Stmt.nested, nestedTemplate, nestedElements, attributesArrowBlocks, Attribute.arrowBlocks,
      Expr.arrowBlocks, ArrowBody.arrowBlocks]
  cases hq : nestedTemplate.lowerTemplates {} with
  | error e =>
    rw [hq] at hok
    cases hok
  | ok q =>
    have hall := Program.lowerTemplates_regions hq
    rw [hfunctions] at hall
    obtain ⟨f', _, hf', hnil, hfs⟩ := List.forall₂_cons_left_iff.mp hall
    obtain rfl := List.forall₂_nil_left_iff.mp hnil
    obtain ⟨body', rfl, hlowered⟩ := hf' _ _ _ _ rfl
    exact ⟨q, body', rfl, hfs, hlowered⟩

end MarkupScript
