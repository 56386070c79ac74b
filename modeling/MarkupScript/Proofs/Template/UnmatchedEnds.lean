import MarkupScript.Proofs.Template.Regions
import MarkupScript.Proofs.Tree.Reached

/-!
# End tags without an element

Lowering fails at an end tag of a template function if no element is open there, and at nothing
else. Whether one is open can be read off the region of the function: before the end tag it has more
start tags than end tags.

The occurrences in a program are the statements of a walk, each with the template function whose
region it is in and with what comes before it there. `Program.lowerTemplates_error_iff` says that
lowering reports the first of them, in document order, that is an end tag with no element open, and
in which words.
-/

namespace MarkupScript

/-- Whether a statement is a start tag. -/
def Stmt.isElementStart : Stmt → Bool
  | .elementStart _ _ _ => true
  | _ => false

/-- Whether a statement is an end tag. -/
def Stmt.isElementEnd : Stmt → Bool
  | .elementEnd _ _ => true
  | _ => false

/-! ### Occurrences -/

/-- The template function whose region a statement is in, and what comes before it there. -/
structure Scope where
  function : String
  before : List Stmt

/-- Behind further statements of the region. -/
def Scope.behind (scope : Scope) (r : List Stmt) : Scope :=
  ⟨scope.function, scope.before ++ r⟩

/-- Behind further statements, in a template function or outside of any. -/
def Scope.behind? (scope : Option Scope) (r : List Stmt) : Option Scope :=
  scope.map (·.behind r)

@[simp] theorem Scope.behind?_none (r : List Stmt) : behind? none r = none := rfl

@[simp] theorem Scope.behind?_nil (scope : Option Scope) : behind? scope [] = scope := by
  cases scope <;> simp [behind?, behind]

@[simp] theorem Scope.behind?_behind? (scope : Option Scope) (r r' : List Stmt) :
    behind? (behind? scope r) r' = behind? scope (r ++ r') := by
  cases scope <;> simp [behind?, behind]

/-- A statement that a walk comes by, and where it stands. -/
structure Occurrence where
  stmt : Stmt
  scope : Option Scope

/-- Where the statements nested in a statement begin: a function has a region of its own if it is a
template function, and everything else goes on with the region it is in. -/
def Stmt.scopeInside (scope : Option Scope) : Stmt → Option Scope
  | .function name _ _ own => own.map fun _ => ⟨name, []⟩
  | s => Scope.behind? scope [s]

/-- What a walk comes by in a statement, in document order. Arrow blocks are outside of template
functions. -/
def Stmt.occurrences (scope : Option Scope) (s : Stmt) : List Occurrence :=
  (s.arrowBlocks.attach.flatMap fun ⟨b, _⟩ => b.attach.flatMap fun ⟨t, _⟩ => t.occurrences none) ++
  ⟨s, scope⟩ :: s.nested.attach.zipIdx.flatMap fun ⟨⟨t, _⟩, i⟩ =>
    t.occurrences (Scope.behind? (s.scopeInside scope) (regionAll (s.nested.take i)))
termination_by sizeOf s
decreasing_by
  · exact sizeOf_lt_of_mem_block ‹b ∈ _› ‹t ∈ b›
  · exact sizeOf_lt_of_mem_nested ‹t ∈ _›

/-- What a walk comes by in statements that follow one another. -/
def occurrencesAll (scope : Option Scope) (ss : List Stmt) : List Occurrence :=
  ss.zipIdx.flatMap fun (t, i) => t.occurrences (Scope.behind? scope (regionAll (ss.take i)))

/-- What a walk comes by in a program, in document order. -/
def Program.occurrences (p : Program) : List Occurrence := occurrencesAll none p.body

@[simp] theorem occurrencesAll_nil (scope : Option Scope) : occurrencesAll scope [] = [] := rfl

@[simp] theorem occurrencesAll_cons (scope : Option Scope) (s : Stmt) (ss : List Stmt) :
    occurrencesAll scope (s :: ss) =
      s.occurrences scope ++ occurrencesAll (Scope.behind? scope s.region) ss := by
  simp only [occurrencesAll, List.zipIdx_cons, List.flatMap_cons, List.take_zero, Nat.zero_add]
  rw [List.zipIdx_succ, List.flatMap_map]
  simp [regionAll]

theorem occurrencesAll_none (ss : List Stmt) : occurrencesAll none ss = ss.flatMap (Stmt.occurrences none) := by
  induction ss with
  | nil => rfl
  | cons s ss ih => simp [ih]

theorem Stmt.occurrences_eq (scope : Option Scope) (s : Stmt) : s.occurrences scope =
    s.arrowBlocks.flatMap (occurrencesAll none) ++
      ⟨s, scope⟩ :: occurrencesAll (s.scopeInside scope) s.nested := by
  have hnested : s.nested.zipIdx = s.nested.attach.zipIdx.map (Prod.map Subtype.val id) := by
    rw [← List.zipIdx_map, List.attach_map_subtype_val]
  have hblocks : occurrencesAll none = fun b => b.flatMap (occurrences none) := funext occurrencesAll_none
  rw [occurrences, hblocks, occurrencesAll, hnested, List.flatMap_map]
  simp

theorem map_stmt_occurrencesAll_of {ss : List Stmt}
    (h : ∀ s ∈ ss, ∀ scope, (s.occurrences scope).map Occurrence.stmt = s.walk true)
    (scope : Option Scope) : (occurrencesAll scope ss).map Occurrence.stmt = walkAll true ss := by
  induction ss generalizing scope with
  | nil => rfl
  | cons s ss ih =>
    rw [List.forall_mem_cons] at h
    rw [occurrencesAll_cons, List.map_append, h.1, ih h.2, walkAll_cons]

/-- The occurrences are the statements of a walk, in its order. -/
theorem Stmt.map_stmt_occurrences (scope : Option Scope) (s : Stmt) :
    (s.occurrences scope).map Occurrence.stmt = s.walk true := by
  induction s using Stmt.induction generalizing scope with
  | step s ihBlocks ihNested =>
    have hentered : s.entered true = s.arrowBlocks := by simp [entered]
    rw [occurrences_eq, walk_eq, hentered, List.map_append, List.map_cons, List.map_flatMap,
      map_stmt_occurrencesAll_of ihNested]
    congr 1
    exact List.flatMap_congr fun b hb => map_stmt_occurrencesAll_of (ihBlocks b hb) none

theorem map_stmt_occurrencesAll (scope : Option Scope) (ss : List Stmt) :
    (occurrencesAll scope ss).map Occurrence.stmt = walkAll true ss :=
  map_stmt_occurrencesAll_of (fun s _ scope => s.map_stmt_occurrences scope) scope

/-- What an occurrence is reported as: an end tag of a template function, with no more start tags
before it than end tags. -/
def Occurrence.error? : Occurrence → Option LowerError
  | ⟨.elementEnd tag span, some ⟨function, before⟩⟩ =>
    if before.countP Stmt.isElementStart ≤ before.countP Stmt.isElementEnd then
      some ⟨tag, span.line, span.column, function⟩
    else none
  | _ => none

/-- What is said about an occurrence that is reported. -/
def Occurrence.report? : Occurrence → Option String
  | ⟨.elementEnd tag span, some ⟨function, before⟩⟩ =>
    if before.countP Stmt.isElementStart ≤ before.countP Stmt.isElementEnd then
      some ("Closing tag </" ++ tag ++ "> at line " ++ toString span.line ++ ", column " ++
        toString span.column ++ " has no matching opening tag in template function '" ++ function ++
        "'")
    else none
  | _ => none

theorem Occurrence.map_detail_error? (o : Occurrence) :
    o.error?.map LowerError.detail = o.report? := by
  unfold error? report?
  split
  · split <;> rfl
  · rfl

/-- The first error among occurrences. -/
def firstError (os : List Occurrence) : Option LowerError := os.findSome? Occurrence.error?

@[simp] theorem firstError_nil : firstError [] = none := rfl

@[simp] theorem firstError_append (os os' : List Occurrence) :
    firstError (os ++ os') = (firstError os).or (firstError os') :=
  List.findSome?_append

@[simp] theorem firstError_cons (o : Occurrence) (os : List Occurrence) :
    firstError (o :: os) = o.error?.or (firstError os) := by
  rw [firstError, List.findSome?_cons]
  cases o.error? <;> rfl

theorem Occurrence.error?_of_not_isElementEnd {s : Stmt} (h : s.isElementEnd = false)
    (scope : Option Scope) : Occurrence.error? ⟨s, scope⟩ = none := by
  cases s <;> first | rfl | cases h

/-! ### What a part reports -/

/-- The template function that lowering is in is the one whose region goes on, and as many elements
are open in it as have started and not ended. -/
inductive Continues : Option Template → Option Scope → Prop
  | outside : Continues none none
  | inside {t : Template} {before : List Stmt} :
      t.openElements.length + before.countP Stmt.isElementEnd =
        before.countP Stmt.isElementStart →
      Continues (some t) (some ⟨t.function, before⟩)

theorem Continues.behind {template : Option Template} {scope : Option Scope} {s : Stmt}
    (hs : s.isStartOrEnd = false) (h : Continues template scope) :
    Continues template (Scope.behind? scope [s]) := by
  have hstart : s.isElementStart = false := by cases s <;> first | rfl | cases hs
  have hend : s.isElementEnd = false := by cases s <;> first | rfl | cases hs
  cases h with
  | outside => exact .outside
  | inside hcount =>
    refine .inside ?_
    simpa [List.countP_append, List.countP_singleton, hstart, hend] using hcount

/-- From any state at `scope`, `x` fails with the given error, or succeeds and leaves the state at
`scope'` if there is none. -/
def Lower.Reports (x : Lower α) (error : Option LowerError) (scope scope' : Option Scope) : Prop :=
  ∀ st : Lowering, Continues st.template scope →
    (∀ e, error = some e → x st = .error e) ∧
    (error = none → ∃ a st', x st = .ok (a, st') ∧ Continues st'.template scope')

namespace Lower.Reports

theorem pure (a : α) (scope : Option Scope) : Reports (Pure.pure a) none scope scope :=
  fun st hst => ⟨nofun, fun _ => ⟨a, st, rfl, hst⟩⟩

theorem mono {x : Lower α} {error : Option LowerError} {scope₁ scope₁' scope₂ scope₂' : Option Scope}
    (hx : Reports x error scope₁' scope₂')
    (h₁ : ∀ template, Continues template scope₁ → Continues template scope₁')
    (h₂ : ∀ template, Continues template scope₂' → Continues template scope₂) :
    Reports x error scope₁ scope₂ := by
  intro st hst
  obtain ⟨hfail, hok⟩ := hx st (h₁ _ hst)
  refine ⟨hfail, fun hnone => ?_⟩
  obtain ⟨a, st', ha, hst'⟩ := hok hnone
  exact ⟨a, st', ha, h₂ _ hst'⟩

theorem bind {x : Lower α} {f : α → Lower β} {error error' : Option LowerError}
    {scope scope' scope'' : Option Scope} (hx : Reports x error scope scope')
    (hf : ∀ a, Reports (f a) error' scope' scope'') :
    Reports (x >>= f) (error.or error') scope scope'' := by
  intro st hst
  obtain ⟨hfail, hok⟩ := hx st hst
  have hrun : (x >>= f) st = (x st).bind fun r => f r.1 r.2 := rfl
  cases error with
  | some e =>
    refine ⟨fun e' he' => ?_, nofun⟩
    rw [hrun, hfail e rfl]
    exact congrArg Except.error (Option.some.inj he')
  | none =>
    obtain ⟨a, st₁, ha, hst₁⟩ := hok rfl
    rw [hrun, ha]
    exact hf a st₁ hst₁

theorem within {template : Option Template} {x : Lower α} {error : Option LowerError}
    {inside inside' : Option Scope} (hx : Reports x error inside inside')
    (htemplate : Continues template inside) (scope : Option Scope) :
    Reports (Lower.within template x) error scope scope := by
  intro st hst
  obtain ⟨hfail, hok⟩ := hx { st with template } htemplate
  refine ⟨fun e he => ?_, fun hnone => ?_⟩
  · show ((x { st with template }).bind _) = _
    rw [hfail e he]
    rfl
  · obtain ⟨a, st₁, ha, -⟩ := hok hnone
    exact ⟨a, _, within_eq_ok.mpr ⟨st₁, ha, rfl⟩, hst⟩

/-- Items that leave the region where it is are treated one after the other. -/
theorem mapM {f : α → Lower β} {occurrences : α → List Occurrence} {as : List α}
    {scope : Option Scope}
    (h : ∀ a ∈ as, Reports (f a) (firstError (occurrences a)) scope scope) :
    Reports (as.mapM f) (firstError (as.flatMap occurrences)) scope scope := by
  induction as with
  | nil => exact pure [] scope
  | cons a as ih =>
    rw [List.forall_mem_cons] at h
    rw [List.mapM_cons, List.flatMap_cons, firstError_append]
    refine bind h.1 fun b => ?_
    rw [← Option.or_none (o := firstError (as.flatMap occurrences))]
    exact bind (ih h.2) fun bs => pure _ scope

end Lower.Reports

/-- A tag, whatever its arrow blocks are, is reported if it is an end tag with no element open. -/
theorem Lower.leaf_tag_reports (options : Options) {s : Stmt} (h : s.isStartOrEnd = true)
    (bs : List (List Stmt)) (ts : List (Option Stmt)) (scope : Option Scope) :
    (leaf options ((s.fill bs).withNested ts)).Reports (Occurrence.error? ⟨s, scope⟩) scope
      (Scope.behind? scope [s]) := by
  rintro ⟨used, template⟩ hst
  cases hst with
  | outside =>
    have hnone : Occurrence.error? ⟨s, none⟩ = none := by cases s <;> rfl
    rw [hnone]
    exact ⟨nofun, fun _ => ⟨_, _, rfl, .outside⟩⟩
  | @inside t before hcount =>
    cases s with
    | elementStart name attributes span =>
      refine ⟨nofun, fun _ => ⟨_, _, leaf_elementStart .., .inside ?_⟩⟩
      simp only [List.countP_append, List.countP_singleton, Stmt.isElementStart, Stmt.isElementEnd,
        List.length_cons, if_true, Bool.false_eq_true, if_false]
      omega
    | elementEnd name span =>
      have hleaf := leaf_elementEnd options used t name span
      simp only [Occurrence.error?]
      cases hopen : t.openElements with
      | nil =>
        rw [hopen, List.length_nil] at hcount
        rw [hopen] at hleaf
        rw [if_pos (by omega)]
        refine ⟨fun e he => hleaf.trans ?_, nofun⟩
        rw [← Option.some.inj he]
      | cons index outer =>
        rw [hopen, List.length_cons] at hcount
        rw [hopen] at hleaf
        rw [if_neg (by omega)]
        refine ⟨nofun, fun _ => ⟨_, _, hleaf, .inside ?_⟩⟩
        simp only [List.countP_append, List.countP_singleton, Stmt.isElementStart,
          Stmt.isElementEnd, if_true, Bool.false_eq_true, if_false]
        omega
    | _ => cases h

/-- What is no tag is not reported, and leaves the elements as they are. -/
theorem Lower.leaf_reports (options : Options) {s : Stmt} (h : s.isStartOrEnd = false)
    (scope : Option Scope) : (leaf options s).Reports none scope scope := by
  rintro ⟨used, template⟩ hst
  refine ⟨nofun, fun _ => ?_⟩
  cases hst with
  | outside => exact ⟨s, _, rfl, .outside⟩
  | @inside t before hcount =>
    cases hm : s.isMarkup with
    | false => exact ⟨s, _, congrFun (leaf_of_not_markup options hm) _, .inside hcount⟩
    | true =>
      cases s with
      | elementStart | elementEnd => cases h
      | element name attributes span =>
        exact ⟨_, _, leaf_element options used t name attributes span, .inside hcount⟩
      | expression value => exact ⟨_, _, leaf_literal options used t hm, .inside hcount⟩
      | _ => cases hm

theorem Stmt.isStartOrEnd_rebuilt (s : Stmt) (bs : List (List Stmt)) (ts : List (Option Stmt)) :
    ((s.fill bs).withNested ts).isStartOrEnd = s.isStartOrEnd := by
  cases s with
  | decorator d =>
    cases d
    rfl
  | _ => rfl

theorem Stmt.scopeInside_of_not_function {s : Stmt} (h : s.isFunction = false)
    (scope : Option Scope) : s.scopeInside scope = Scope.behind? scope [s] := by
  cases s <;> first | rfl | cases h

/-! ### Statements and programs -/

section

variable {options : Options}

theorem mapM_lower_reports {inner : List Stmt → Lower (List Stmt)} {ss : List Stmt}
    (h : ∀ s ∈ ss, ∀ scope, (s.lower inner options).Reports (firstError (s.occurrences scope)) scope
      (Scope.behind? scope s.region)) (scope : Option Scope) :
    (ss.mapM (Stmt.lower inner options)).Reports (firstError (occurrencesAll scope ss)) scope
      (Scope.behind? scope (regionAll ss)) := by
  induction ss generalizing scope with
  | nil => simpa [regionAll] using Lower.Reports.pure ([] : List Stmt) scope
  | cons s ss ih =>
    rw [List.forall_mem_cons] at h
    rw [List.mapM_cons, occurrencesAll_cons, firstError_append]
    refine .bind (h.1 scope) fun t => ?_
    rw [← Option.or_none (o := firstError (occurrencesAll _ ss))]
    refine .bind (ih h.2 _) fun ts => ?_
    simpa [regionAll] using Lower.Reports.pure (t :: ts) (Scope.behind? scope (regionAll (s :: ss)))

/-- An arrow block is outside of template functions. -/
theorem lowerDeep_reports {body : List Stmt}
    (h : ∀ s ∈ body, ∀ scope, (s.lower (lowerDeep options) options).Reports
      (firstError (s.occurrences scope)) scope (Scope.behind? scope s.region))
    (scope : Option Scope) :
    (lowerDeep options body).Reports (firstError (occurrencesAll none body)) scope scope := by
  rw [lowerDeep_eq]
  exact .within (mapM_lower_reports h none) .outside scope

/-- Lowering a statement reports the first error in it. -/
theorem Stmt.lower_reports (s : Stmt) (scope : Option Scope) :
    (s.lower (lowerDeep options) options).Reports (firstError (s.occurrences scope)) scope
      (Scope.behind? scope s.region) := by
  induction s using Stmt.induction generalizing scope with
  | step s ihBlocks ihNested =>
    have hnested := mapM_lower_reports ihNested
    rw [occurrences_eq, firstError_append, firstError_cons, region_eq]
    cases hf : s.isFunction with
    | true =>
      cases s with
      | function name params body own =>
        have hown : Continues (own.map fun _ => ⟨name, 0, []⟩)
            (scopeInside scope (.function name params body own)) := by
          cases own with
          | none => exact .outside
          | some d => exact .inside rfl
        have hbody := Lower.Reports.within (hnested _) hown scope
        rw [lower_function, ← Option.or_none (o := firstError (occurrencesAll _ _))]
        exact (Lower.Reports.bind hbody fun body' => .pure _ scope).mono (fun _ h => h)
          fun _ h => h.behind (s := .function name params body own) rfl
      | _ => cases hf
    | false =>
      have hblocks := Lower.Reports.mapM fun b hb =>
        lowerDeep_reports (ihBlocks b hb) scope
      rw [lower_node _ _ hf, scopeInside_of_not_function hf]
      refine .bind hblocks fun bs => ?_
      cases ht : s.isStartOrEnd with
      | true =>
        have hnil : s.nested = [] := by cases s <;> first | rfl | cases ht
        rw [hnil]
        simpa [regionAll] using Lower.leaf_tag_reports options ht bs [] scope
      | false =>
        rw [Occurrence.error?_of_not_isElementEnd (by cases s <;> first | rfl | cases ht),
          Option.none_or, ← Option.or_none (o := firstError _)]
        refine .bind ((hnested _).mono (fun _ h => h.behind ht) fun _ h => h) fun ts => ?_
        simpa using Lower.leaf_reports options (by rwa [isStartOrEnd_rebuilt])
          (Scope.behind? scope (s :: regionAll s.nested))

end

/-! ### Where statements stand -/

/-- On the way through the statements `r` of a region, `t` comes at the given scope. -/
def ComesAt (scope : Option Scope) (r : List Stmt) (t : Stmt) (place : Scope) : Prop :=
  ∃ inside after, Scope.behind? scope inside = some place ∧ r = inside ++ t :: after

section

variable {scope : Option Scope} {s t : Stmt} {place : Scope} {r r' : List Stmt}

theorem not_comesAt_nil : ¬ ComesAt scope [] t place := by
  rintro ⟨inside, after, -, h⟩
  simp at h

theorem not_comesAt_none : ¬ ComesAt none r t place := by
  rintro ⟨inside, after, h, -⟩
  cases h

theorem comesAt_append : ComesAt scope (r ++ r') t place ↔
    ComesAt scope r t place ∨ ComesAt (Scope.behind? scope r) r' t place := by
  constructor
  · rintro ⟨inside, after, hscope, h⟩
    rcases List.append_eq_append_iff.mp h with ⟨as, rfl, rfl⟩ | ⟨bs, rfl, hbs⟩
    · exact .inr ⟨as, after, by simpa using hscope, rfl⟩
    · cases bs with
      | nil => exact .inr ⟨[], after, by simpa using hscope, hbs.symm⟩
      | cons b bs =>
        obtain ⟨rfl, rfl⟩ := List.cons.inj hbs
        exact .inl ⟨inside, bs, hscope, rfl⟩
  · rintro (⟨inside, after, hscope, rfl⟩ | ⟨inside, after, hscope, rfl⟩)
    · exact ⟨inside, after ++ r', hscope, by simp⟩
    · exact ⟨r ++ inside, after, by simpa using hscope, by simp⟩

theorem comesAt_singleton : ComesAt scope [s] t place ↔ t = s ∧ scope = some place := by
  constructor
  · rintro ⟨inside, after, hscope, h⟩
    cases inside with
    | nil =>
      obtain ⟨rfl, -⟩ := List.cons.inj h
      exact ⟨rfl, by simpa using hscope⟩
    | cons b bs => simp at h
  · rintro ⟨rfl, rfl⟩
    exact ⟨[], [], by simp, rfl⟩

theorem comesAt_cons : ComesAt scope (s :: r) t place ↔
    (t = s ∧ scope = some place) ∨ ComesAt (Scope.behind? scope [s]) r t place := by
  rw [← List.singleton_append, comesAt_append, comesAt_singleton]

end

/-- A statement stands in the region of a template function, with the given scope. -/
def Stmt.Holds (f t : Stmt) (place : Scope) : Prop :=
  f.isFunction = true ∧ ComesAt (f.scopeInside none) (regionAll f.nested) t place

theorem mem_occurrencesAll_iff {scope : Option Scope} {ss : List Stmt} {t : Stmt} {place : Scope}
    (ih : ∀ s ∈ ss, ∀ scope, ⟨t, some place⟩ ∈ s.occurrences scope ↔
      (∃ f ∈ s.functions, f.Holds t place) ∨ ComesAt scope s.region t place) :
    ⟨t, some place⟩ ∈ occurrencesAll scope ss ↔
      (∃ f ∈ functionsAll ss, f.Holds t place) ∨ ComesAt scope (regionAll ss) t place := by
  induction ss generalizing scope with
  | nil => simp [functionsAll, regionAll, not_comesAt_nil]
  | cons s ss ihs =>
    rw [List.forall_mem_cons] at ih
    rw [occurrencesAll_cons, List.mem_append, ih.1, ihs ih.2]
    simp only [functionsAll, regionAll, List.flatMap_cons, List.mem_append, comesAt_append,
      or_and_right, exists_or]
    exact or_or_or_comm

/-- Besides those on the way through the region a statement is in, the occurrences that belong to a
template function are those in the regions of its functions. -/
theorem Stmt.mem_occurrences_iff {s t : Stmt} {place : Scope} (scope : Option Scope) :
    ⟨t, some place⟩ ∈ s.occurrences scope ↔
      (∃ f ∈ s.functions, f.Holds t place) ∨ ComesAt scope s.region t place := by
  induction s using Stmt.induction generalizing scope with
  | step s ihBlocks ihNested =>
    have hblocks : (∃ b ∈ s.arrowBlocks, ⟨t, some place⟩ ∈ occurrencesAll none b) ↔
        ∃ f ∈ s.arrowBlocks.flatMap functionsAll, f.Holds t place := by
      simp only [List.mem_flatMap]
      constructor
      · rintro ⟨b, hb, h⟩
        obtain ⟨f, hf, hholds⟩ := ((mem_occurrencesAll_iff (ihBlocks b hb)).mp h).resolve_right
          not_comesAt_none
        exact ⟨f, ⟨b, hb, hf⟩, hholds⟩
      · rintro ⟨f, ⟨b, hb, hf⟩, hholds⟩
        exact ⟨b, hb, (mem_occurrencesAll_iff (ihBlocks b hb)).mpr (.inl ⟨f, hf, hholds⟩)⟩
    have hself : (⟨t, some place⟩ : Occurrence) = ⟨s, scope⟩ ↔ t = s ∧ scope = some place := by
      rw [Occurrence.mk.injEq, eq_comm (a := some place)]
    rw [occurrences_eq, List.mem_append, List.mem_flatMap, hblocks, List.mem_cons, hself,
      mem_occurrencesAll_iff ihNested, functions_eq, region_eq]
    simp only [List.mem_append, or_and_right, exists_or]
    cases hf : s.isFunction with
    | true =>
      have hholds : s.Holds t place ↔ ComesAt (s.scopeInside scope) (regionAll s.nested) t place := by
        cases s with
        | function => simp [Holds, isFunction, scopeInside]
        | _ => cases hf
      simp only [if_true, List.mem_singleton, exists_eq_left, hholds, comesAt_singleton,
        or_left_comm, or_comm]
    | false =>
      simp only [Bool.false_eq_true, if_false, List.not_mem_nil, false_and, exists_false,
        false_or, comesAt_cons, scopeInside_of_not_function hf, or_assoc, or_left_comm]

theorem Stmt.holds_iff {f t : Stmt} {place : Scope} : f.Holds t place ↔
    ∃ params body d after, f = .function place.function params body (some d) ∧
      regionAll body = place.before ++ t :: after := by
  constructor
  · rintro ⟨hf, inside, after, hscope, hr⟩
    cases f with
    | function name params body own =>
      cases own with
      | none => cases hscope
      | some d =>
        obtain rfl := Option.some.inj hscope
        exact ⟨params, body, d, after, rfl, hr⟩
    | _ => cases hf
  · rintro ⟨params, body, d, after, rfl, hr⟩
    exact ⟨rfl, place.before, after, rfl, hr⟩

/-- The occurrences in a program that belong to a template function are the statements in the regions
of its template functions, with what is before them there. -/
theorem Program.mem_occurrences_iff {p : Program} {t : Stmt} {place : Scope} :
    ⟨t, some place⟩ ∈ p.occurrences ↔
      ∃ params body d after, .function place.function params body (some d) ∈ p.functions ∧
        regionAll body = place.before ++ t :: after := by
  rw [occurrences, mem_occurrencesAll_iff fun s _ => s.mem_occurrences_iff,
    or_iff_left not_comesAt_none]
  constructor
  · rintro ⟨f, hf, hholds⟩
    obtain ⟨params, body, d, after, rfl, hr⟩ := Stmt.holds_iff.mp hholds
    exact ⟨params, body, d, after, hf, hr⟩
  · rintro ⟨params, body, d, after, hf, hr⟩
    exact ⟨_, hf, Stmt.holds_iff.mpr ⟨params, body, d, after, rfl, hr⟩⟩

theorem Occurrence.isSome_error?_iff {o : Occurrence} : o.error?.isSome = true ↔
    ∃ tag span scope, o = ⟨.elementEnd tag span, some scope⟩ ∧
      scope.before.countP Stmt.isElementStart ≤ scope.before.countP Stmt.isElementEnd := by
  constructor
  · intro h
    unfold error? at h
    split at h
    · next tag span function before =>
      split at h
      · next hcount => exact ⟨tag, span, ⟨function, before⟩, rfl, hcount⟩
      · cases h
    · cases h
  · rintro ⟨tag, span, ⟨function, before⟩, rfl, hcount⟩
    rw [error?, if_pos hcount]
    rfl

/-! ### The first error -/

/-- Lowering a program reports the first error in it. -/
theorem Program.lowerTemplates_eq_error_iff {p : Program} {options : Options} {e : LowerError} :
    p.lowerTemplates options = .error e ↔ firstError p.occurrences = some e := by
  have hlower : p.lowerTemplates options = (lowerDeep options p.body ⟨[], none⟩).map
      fun r => ⟨options.instructionImport r.2.used ++ r.1⟩ := rfl
  have hreports : (lowerDeep options p.body).Reports (firstError p.occurrences) none none :=
    lowerDeep_reports (fun s _ => s.lower_reports) none
  obtain ⟨hfail, hok⟩ := hreports ⟨[], none⟩ .outside
  rw [hlower]
  cases hfirst : firstError p.occurrences with
  | none =>
    obtain ⟨body, st, hbody, -⟩ := hok hfirst
    simp [hbody, Except.map]
  | some e' => simp [hfail e' hfirst, Except.map]

/-- The message is what is said about the first occurrence that is reported. -/
theorem Program.lowerTemplates_report_iff {p : Program} {options : Options} {text : String} :
    (∃ e, p.lowerTemplates options = .error e ∧ e.detail = text ∧
      e.message = "Codegen error: " ++ text) ↔
      p.occurrences.findSome? Occurrence.report? = some text := by
  have hreport : p.occurrences.findSome? Occurrence.report? =
      (firstError p.occurrences).map LowerError.detail := by
    rw [firstError, List.map_findSome?]
    exact congrArg (p.occurrences.findSome? ·) (funext fun o => o.map_detail_error?.symm)
  rw [hreport, Option.map_eq_some_iff]
  constructor
  · rintro ⟨e, he, hdetail, -⟩
    exact ⟨e, lowerTemplates_eq_error_iff.mp he, hdetail⟩
  · rintro ⟨e, he, rfl⟩
    exact ⟨e, lowerTemplates_eq_error_iff.mpr he, rfl, rfl⟩

/-- **Lowering fails on unmatched end tags only.** It fails if and only if one of the template
functions that it comes by has an end tag in its region with no more start tags than end tags before
it. The error is that of the first such end tag in document order: it has its name, its line and its
column, and the name of the template function whose region it is in, and its message says so. -/
theorem Program.lowerTemplates_error_iff (p : Program) (options : Options) :
    ((∃ e, p.lowerTemplates options = .error e) ↔
      ∃ name params body d before tag span after,
        .function name params body (some d) ∈ p.functions ∧
        regionAll body = before ++ .elementEnd tag span :: after ∧
        before.countP Stmt.isElementStart ≤ before.countP Stmt.isElementEnd) ∧
    (∀ e, p.lowerTemplates options = .error e ↔
      p.occurrences.findSome? Occurrence.error? = some e) ∧
    (∀ text, (∃ e, p.lowerTemplates options = .error e ∧ e.detail = text ∧
        e.message = "Codegen error: " ++ text) ↔
      p.occurrences.findSome? Occurrence.report? = some text) ∧
    p.occurrences.map Occurrence.stmt = walkAll true p.body := by
  refine ⟨?_, fun e => lowerTemplates_eq_error_iff, fun text => lowerTemplates_report_iff,
    map_stmt_occurrencesAll none p.body⟩
  simp only [lowerTemplates_eq_error_iff, firstError, ← Option.isSome_iff_exists,
    List.findSome?_isSome_iff, Occurrence.isSome_error?_iff]
  constructor
  · rintro ⟨_, ho, tag, span, scope, rfl, hcount⟩
    obtain ⟨params, body, d, after, hf, hr⟩ := mem_occurrences_iff.mp ho
    exact ⟨scope.function, params, body, d, scope.before, tag, span, after, hf, hr, hcount⟩
  · rintro ⟨name, params, body, d, before, tag, span, after, hf, hr, hcount⟩
    exact ⟨_, mem_occurrences_iff.mpr ⟨params, body, d, after, hf, hr⟩, tag, span, ⟨name, before⟩,
      rfl, hcount⟩

/-- A template function `f` whose loop has, in its test, an arrow block with a template function `g`,
and an end tag as its body. There is an end tag without an element in both. -/
def unmatchedEnds : Program :=
  let component : Decorator := ⟨"component", [], default⟩
  let inner : Stmt := .function "g" [] [.elementEnd "q" ⟨12, 16, 2, 3⟩] (some component)
  ⟨[.function "f" [] [.while_ (.arrow [] (.block [inner]) default)
    (.elementEnd "p" ⟨20, 24, 3, 1⟩)] (some component)]⟩

-- Arrow blocks come first in document order, so that it is the end tag in `g` that is reported.
example : unmatchedEnds.lowerTemplates {} = .error ⟨"q", 2, 3, "g"⟩ := by rfl

end MarkupScript
