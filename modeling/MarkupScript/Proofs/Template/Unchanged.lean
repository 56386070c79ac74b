import MarkupScript.Proofs.Compile
import MarkupScript.Proofs.Template.Regions

/-!
# What the passes leave alone

Attaching changes a program only where there are decorators, and lowering only where there are
template functions. Both put every other statement together again from its parts, and what comes out
is the statement that went in.

Attaching leaves no decorator behind, and lowering no template function. So both change nothing when
they are done a second time, and a source without decorators is compiled to the program that it
spells, whatever markup that has.
-/

namespace MarkupScript

/-- Parts that leave the state alone one by one leave it alone together. -/
theorem mapM_eq_map {α β σ : Type} {m : Type → Type} [Monad m] [LawfulMonad m]
    {f : α → StateT σ m β} {g : α → β} {as : List α} {st : σ}
    (h : ∀ a ∈ as, f a st = pure (g a, st)) : as.mapM f st = pure (as.map g, st) := by
  induction as with
  | nil => rfl
  | cons a as ih =>
    rw [List.forall_mem_cons] at h
    rw [List.mapM_cons]
    show (f a st >>= fun r => (as.mapM f >>= fun bs => pure (r.1 :: bs)) r.2) = _
    rw [h.1, pure_bind]
    show (as.mapM f st >>= fun r => pure (g a :: r.1, r.2)) = _
    rw [ih h.2, pure_bind, List.map_cons]

/-! ### Attaching -/

/-- Nothing waits, and no decorator comes. -/
theorem attachDeep_eq_self {body : List Stmt} {w : Waiting}
    (h : ∀ s ∈ body, s.attachOne attachDeep w = pure (some s, w)) :
    attachDeep body w = pure (body, w) := by
  rw [attachDeep_eq]
  show (body.mapM (Stmt.attachOne attachDeep) w >>= fun r => pure (r.1.filterMap id, r.2)) = _
  rw [mapM_eq_map h, pure_bind, List.filterMap_map]
  simp

/-- A statement without decorators stays as it is, if none waits for a function. -/
theorem Stmt.attachOne_eq_self (s : Stmt) (h : ∀ t ∈ s.walk false, t.isDecorator = false)
    {w : Waiting} (hw : w.pending = none) : s.attachOne attachDeep w = pure (some s, w) := by
  induction s using Stmt.induction with
  | step s ihBlocks ihNested =>
    have hs : s.isDecorator = false := h s (mem_walk.mpr (.inr (.inl rfl)))
    have hentered : s.entered false = s.arrowBlocks := by simp [entered, hs]
    have hblocks : s.arrowBlocks.mapM attachDeep w = pure (s.arrowBlocks.map id, w) := by
      refine mapM_eq_map fun b hb => attachDeep_eq_self fun t ht => ?_
      refine ihBlocks b hb t ht fun u hu => ?_
      exact h u (mem_walk.mpr (.inl ⟨b, hentered ▸ hb, mem_walkAll.mpr ⟨t, ht, hu⟩⟩))
    have hpending : s.takePending w = pure (none, w) := by
      obtain ⟨pending, dropped⟩ := w
      cases hw
      unfold takePending
      split <;> rfl
    have hnested : s.nested.mapM (attachOne attachDeep) w = pure (s.nested.map some, w) := by
      refine mapM_eq_map fun t ht => ihNested t ht fun u hu => ?_
      exact h u (mem_walk.mpr (.inr (.inr (mem_walkAll.mpr ⟨t, ht, hu⟩))))
    have hsame : ((s.fill s.arrowBlocks).withNested (s.nested.map some)).decorated none = s := by
      rw [s.fill_self, s.withNested_self]
      cases s <;> rfl
    rw [attachOne_node _ hs]
    show (s.arrowBlocks.mapM attachDeep w >>= fun r => s.takePending r.2 >>= fun d =>
      s.nested.mapM (attachOne attachDeep) d.2 >>= fun ts =>
        pure (some (((s.fill r.1).withNested ts.1).decorated d.1), ts.2)) = _
    rw [hblocks, pure_bind, hpending, pure_bind, hnested, pure_bind, List.map_id, hsame]

/-- A program without decorators stays as it is, and none is dropped. -/
theorem Program.attachDecorators_eq_self {p : Program}
    (h : ∀ t ∈ walkAll false p.body, t.isDecorator = false) : p.attachDecorators = ⟨p, []⟩ := by
  have hbody : attachDeep p.body .start = pure (p.body, .start) :=
    attachDeep_eq_self fun s hs => s.attachOne_eq_self (fun t ht => h t (mem_walkAll.mpr ⟨s, hs, ht⟩))
      rfl
  show (⟨⟨(attachDeep p.body .start).1⟩, (attachDeep p.body .start).2.remaining⟩ : Attachment) = _
  rw [hbody]
  rfl

/-- No decorator is left in any place that attaching comes by, whatever the program. -/
theorem Program.not_isDecorator_of_attachDecorators (p : Program) :
    ∀ t ∈ walkAll false p.attachDecorators.program.body, t.isDecorator = false := by
  refine forall_walk_attachDeep (fun s _ => ?_) Waiting.start
  refine s.forall_walk_attachOne (Q := (·.isDecorator = false)) (W := fun _ => True) rfl
    (fun _ _ _ _ _ _ => trivial) (fun _ _ _ _ => trivial) (fun s bs ts d _ hs _ => ?_) trivial
  simpa using hs

/-- **Decorators are attached once.** The programs that attaching leaves as they are, with no
decorator dropped, are those in which it comes by no decorator. What it makes of a program, whatever
that is, is one of them. -/
theorem Program.attachDecorators_twice (p : Program) :
    p.attachDecorators.program.attachDecorators = ⟨p.attachDecorators.program, []⟩ ∧
    (p.attachDecorators = ⟨p, []⟩ ↔ ∀ t ∈ walkAll false p.body, t.isDecorator = false) := by
  refine ⟨attachDecorators_eq_self p.not_isDecorator_of_attachDecorators, fun h => ?_,
    attachDecorators_eq_self⟩
  have hplain := p.not_isDecorator_of_attachDecorators
  rwa [h] at hplain

/-! ### Lowering -/

/-- Whether a statement is a template function. -/
def Stmt.isTemplate : Stmt → Bool
  | .function _ _ _ own => own.isSome
  | _ => false

section

variable {options : Options}

theorem lowerDeep_eq_self {body : List Stmt}
    (h : ∀ s ∈ body, ∀ st : Lowering, st.template = none →
      s.lower (lowerDeep options) options st = .ok (s, st)) (st : Lowering) :
    lowerDeep options body st = .ok (body, st) := by
  refine lowerDeep_eq_ok.mpr ⟨{ st with template := none }, ?_, rfl⟩
  have hm := mapM_eq_map (g := id) fun s hs => h s hs { st with template := none } rfl
  rwa [List.map_id] at hm

/-- Outside of template functions, a statement without any in it stays as it is. -/
theorem Stmt.lower_eq_self (s : Stmt) (h : ∀ f ∈ s.functions, f.isTemplate = false)
    (st : Lowering) (hst : st.template = none) :
    s.lower (lowerDeep options) options st = .ok (s, st) := by
  induction s using Stmt.induction generalizing st with
  | step s ihBlocks ihNested =>
    rw [functions_eq] at h
    have hnested (st : Lowering) (hst : st.template = none) :
        s.nested.mapM (lower (lowerDeep options) options) st = .ok (s.nested, st) := by
      have hm := mapM_eq_map (g := id) fun t ht => ihNested t ht (fun f hf => h f
        (List.mem_append_right _ (List.mem_append_right _ (List.mem_flatMap.mpr ⟨t, ht, hf⟩)))) st hst
      rwa [List.map_id] at hm
    cases hf : s.isFunction with
    | true =>
      cases s with
      | function name params body own =>
        have hown : own = none := by
          simpa [isTemplate] using h (.function name params body own) (by simp [isFunction])
        subst hown
        refine lower_function_eq_ok.mpr ⟨body, { st with template := none }, ?_, rfl, ?_⟩
        · exact hnested { st with template := none } rfl
        · obtain ⟨used, template⟩ := st
          cases hst
          rfl
      | _ => cases hf
    | false =>
      have hblocks : s.arrowBlocks.mapM (lowerDeep options) st = .ok (s.arrowBlocks, st) := by
        have hm := mapM_eq_map (g := id) fun b hb => lowerDeep_eq_self (fun t ht =>
          ihBlocks b hb t ht fun f hf => h f (List.mem_append_left _
            (List.mem_flatMap.mpr ⟨b, hb, List.mem_flatMap.mpr ⟨t, ht, hf⟩⟩))) st
        rwa [List.map_id] at hm
      refine (lower_eq_ok hf).mpr ⟨s.arrowBlocks, st, s.nested, st, hblocks, hnested st hst, ?_⟩
      rw [s.fill_self, s.withNested_self]
      obtain ⟨used, template⟩ := st
      cases hst
      rfl

end

/-- A program without template functions stays as it is, and nothing is imported. -/
theorem Program.lowerTemplates_eq_self {p : Program} (options : Options)
    (h : ∀ f ∈ p.functions, f.isTemplate = false) : p.lowerTemplates options = .ok p := by
  refine lowerTemplates_eq_ok.mpr
    ⟨p.body, ⟨[], none⟩, lowerDeep_eq_self (fun s hs st hst => ?_) _, rfl⟩
  exact s.lower_eq_self (fun f hf => h f (List.mem_flatMap.mpr ⟨s, hs, hf⟩)) st hst

/-- The import of instructions has no functions in it. -/
theorem Options.functionsAll_instructionImport (options : Options) (used : List Instruction) :
    functionsAll (options.instructionImport used) = [] := by
  simp only [instructionImport]
  split
  · rfl
  · simp [functionsAll, Stmt.functions_eq, Stmt.arrowBlocks, Stmt.isFunction, Stmt.nested]

/-- The functions of a program that was lowered are the lowered functions of the program. -/
theorem Program.functions_lowersTo {p q : Program} {options : Options}
    (h : p.lowerTemplates options = .ok q) :
    List.Forall₂ (LowersTo options) p.functions q.functions := by
  obtain ⟨body, st, hbody, rfl⟩ := lowerTemplates_eq_ok.mp h
  obtain ⟨st₁, hm, -⟩ := lowerDeep_eq_ok.mp hbody
  have hq : functions ⟨options.instructionImport st.used ++ body⟩ = functionsAll body := by
    rw [functions, functionsAll, List.flatMap_append, ← functionsAll, ← functionsAll,
      options.functionsAll_instructionImport, List.nil_append]
  rw [hq]
  exact functionsAll_lowersTo (fun s _ => s.functions_lowersTo) hm

/-- No template function is left in a program that was lowered. -/
theorem Program.not_isTemplate_of_lowerTemplates {p q : Program} {options : Options}
    (h : p.lowerTemplates options = .ok q) : ∀ f ∈ q.functions, f.isTemplate = false := by
  intro f' hf'
  obtain ⟨f, hf, st₂, st₃, hlower⟩ := exists_of_forall₂ (functions_lowersTo h) hf'
  obtain ⟨s, -, hf⟩ := List.mem_flatMap.mp hf
  have hfunction := (List.mem_filter.mp hf).2
  cases f with
  | function name params body own =>
    obtain ⟨body', st₄, -, rfl, -⟩ := Stmt.lower_function_eq_ok.mp hlower
    rfl
  | _ => cases hfunction

/-! ### Sources without decorators -/

section

variable {ok : Stmt → Bool}

mutual

/-- If all statements in a statement pass, so do those in its arrow blocks. -/
theorem Stmt.everywhere_of_every : ∀ s : Stmt, s.every (fun _ => true) ok = true →
    ∀ b ∈ s.arrowBlocks, everywhere ok b
  | .expression value, h, b, hb => value.every_iff_blocks.mp (by simp_all [Stmt.every]) b hb
  | .declaration _ _, h, b, hb => everyDeclarator_iff_blocks.mp (by simp_all [Stmt.every]) b hb
  | .return_ _, h, b, hb => everyExpr?_iff_blocks.mp (by simp_all [Stmt.every]) b hb
  | .if_ test _ _, h, b, hb => test.every_iff_blocks.mp (by simp_all [Stmt.every]) b hb
  | .while_ test _, h, b, hb => test.every_iff_blocks.mp (by simp_all [Stmt.every]) b hb
  | .for_ init test update body, h, b, hb => by
    simp only [Stmt.every, Bool.and_eq_true] at h
    obtain ⟨⟨⟨⟨-, hinit⟩, htest⟩, hupdate⟩, -⟩ := h
    simp only [Stmt.arrowBlocks, List.mem_append] at hb
    rcases hb with hb | hb | hb
    · exact everywhere_of_everyStmt? init hinit b hb
    · exact everyExpr?_iff_blocks.mp htest b hb
    · exact everyExpr?_iff_blocks.mp hupdate b hb
  | .elementStart _ _ _, h, b, hb => everyAttribute_iff_blocks.mp (by simp_all [Stmt.every]) b hb
  | .element _ _ _, h, b, hb => everyAttribute_iff_blocks.mp (by simp_all [Stmt.every]) b hb
  | .decorator ⟨_, _, _⟩, h, b, hb =>
    (everyExpr_iff_blocks fun e _ => e.every_iff_blocks).mp
      (by simp_all [Stmt.every, Decorator.every]) b hb
termination_by structural x => x

theorem everywhere_of_everyStmt? : ∀ s : Option Stmt, everyStmt? (fun _ => true) ok s = true →
    ∀ b ∈ stmtArrowBlocks? s, everywhere ok b
  | some s, h, b, hb => s.everywhere_of_every h b hb
termination_by structural x => x

end

/-- If all statements in a statement pass, so do those nested in it. -/
theorem Stmt.everywhere_nested {s : Stmt} (h : s.every (fun _ => true) ok = true) :
    everywhere ok s.nested := by
  cases s with
  | if_ test consequent alternate =>
    cases alternate <;> simp_all [every, nested, everywhere, everyStmt, everyStmt?]
  | _ => simp_all [every, nested, everywhere, everyStmt]

/-- What all statements in a statement pass is passed by those on a walk. -/
theorem Stmt.walk_of_every (intoDecorators : Bool) (s : Stmt)
    (h : s.every (fun _ => true) ok = true) : ∀ t ∈ s.walk intoDecorators, ok t = true := by
  induction s using Stmt.induction with
  | step s ihBlocks ihNested =>
    intro t ht
    rcases mem_walk.mp ht with ⟨b, hb, ht⟩ | rfl | ht
    · have hb := mem_arrowBlocks_of_entered hb
      obtain ⟨u, hu, ht⟩ := mem_walkAll.mp ht
      exact ihBlocks b hb u hu (everyStmt_iff.mp (s.everywhere_of_every h b hb) u hu) t ht
    · exact onStmt_of_every h
    · obtain ⟨u, hu, ht⟩ := mem_walkAll.mp ht
      exact ihNested u hu (everyStmt_iff.mp (everywhere_nested h) u hu) t ht

end

/-- The functions of a program that was parsed have no decorators of their own. -/
theorem not_isTemplate_of_parse {source : String} {p : Program} (h : parse source = .ok p) :
    ∀ f ∈ p.functions, f.isTemplate = false := by
  intro f hf
  obtain ⟨s, hs, hf⟩ := List.mem_flatMap.mp hf
  have hwf : f.WellFormed :=
    s.walk_wellFormed true (stmtsWellFormed_iff.mp (parse_wellFormed h).1 s hs) f
      (List.mem_filter.mp hf).1
  cases f with
  | function name params body own => simpa [Stmt.isTemplate] using hwf.2.2.2.2
  | _ => rfl

/-- A source without decorators is compiled to what it spells. -/
theorem compile_of_decoratorFree {source : String} {p : Program} (options : Options)
    (h : parse source = .ok p) (hp : p.every (fun _ => true) (!·.isDecorator) = true) :
    compile source options = .ok ⟨p.print, p, []⟩ := by
  have hattach : p.attachDecorators = ⟨p, []⟩ := by
    refine Program.attachDecorators_eq_self fun t ht => ?_
    obtain ⟨s, hs, ht⟩ := mem_walkAll.mp ht
    have hevery := everyStmt_iff.mp hp s hs
    simpa using s.walk_of_every false hevery t ht
  have hwarnings : p.warnings = [] := by rw [Program.warnings, hattach]; rfl
  have hlower : p.attachDecorators.program.lowerTemplates options = .ok p := by
    rw [hattach]
    exact Program.lowerTemplates_eq_self options (not_isTemplate_of_parse h)
  rw [compile_of_parse h hlower, hwarnings]
  simp

/-- **Only template functions are lowered, and only once.** A program in which lowering comes by no
template function is the program it is lowered to. What a program is lowered to is such a program,
so that lowering it again, with whatever options, does nothing. A source without decorators is
compiled to the program that it spells, without warnings. -/
theorem Program.lowerTemplates_unchanged (p : Program) (options : Options) :
    ((∀ f ∈ p.functions, f.isTemplate = false) → p.lowerTemplates options = .ok p) ∧
    (∀ q, p.lowerTemplates options = .ok q → ∀ options', q.lowerTemplates options' = .ok q) ∧
    ∀ source, parse source = .ok p → p.every (fun _ => true) (!·.isDecorator) = true →
      compile source options = .ok ⟨p.print, p, []⟩ := by
  refine ⟨lowerTemplates_eq_self options, fun q hq options' => ?_, fun source h hp => ?_⟩
  · exact lowerTemplates_eq_self options' (not_isTemplate_of_lowerTemplates hq)
  · exact compile_of_decoratorFree options h hp

/-- Elements in a function that is no template, and in an arrow block of an attribute. -/
def plainMarkup : Program :=
  let shown : Expr := .arrow [] (.block nestedElements) default
  ⟨[.function "f" ["a"] nestedElements none, .element "p" [.braced "x" shown] default]⟩

/-- Markup at the top level, in a function and in an arrow block. -/
def plainText : String :=
  "<p> \"a\"; function f() \x7b <q/> 1 \x7d </p> let g = () => \x7b <r x=\x7b1\x7d/> \x7d"

theorem lowerTemplates_plainMarkup :
    plainMarkup.lowerTemplates {} = .ok plainMarkup ∧
    (∃ q, q.body.length = 2 ∧ nestedTemplate.lowerTemplates {} = .ok q ∧
      q.lowerTemplates { runtimeModule := "other" } = .ok q) ∧
    ∃ p, p.body.length = 5 ∧ compile plainText {} = .ok ⟨p.print, p, []⟩ := by
  have hfunctions : ∀ f ∈ plainMarkup.functions, f.isTemplate = false := by
    simp [Program.functions, functionsAll, Stmt.functions_eq, Stmt.arrowBlocks, Stmt.isFunction,
      Stmt.nested, plainMarkup, nestedElements, attributesArrowBlocks, Attribute.arrowBlocks,
      Expr.arrowBlocks, ArrowBody.arrowBlocks, Stmt.isTemplate]
  have hlowered : (nestedTemplate.lowerTemplates {}).toOption.any (·.body.length == 2) = true := by
    decide +kernel
  have hparsed : (parse plainText).toOption.any (fun p => p.body.length == 5 &&
      p.every (fun _ => true) (!·.isDecorator)) = true := by
    decide +kernel
  refine ⟨(Program.lowerTemplates_unchanged _ {}).1 hfunctions, ?_, ?_⟩
  · cases hq : nestedTemplate.lowerTemplates {} with
    | error e =>
      rw [hq] at hlowered
      cases hlowered
    | ok q =>
      rw [hq] at hlowered
      refine ⟨q, by simpa [Except.toOption] using hlowered, rfl, ?_⟩
      exact (Program.lowerTemplates_unchanged _ {}).2.1 q hq _
  · cases hp : parse plainText with
    | error e =>
      rw [hp] at hparsed
      cases hparsed
    | ok p =>
      rw [hp] at hparsed
      obtain ⟨hlength, hevery⟩ : p.body.length = 5 ∧
          p.every (fun _ => true) (!·.isDecorator) = true := by
        simpa [Except.toOption] using hparsed
      exact ⟨p, hlength, (Program.lowerTemplates_unchanged p {}).2.2 plainText hp hevery⟩

end MarkupScript
