import MarkupScript.Compile
import MarkupScript.Proofs.Parse.Results
import MarkupScript.Proofs.Template.DecoratorFree
import MarkupScript.Proofs.Template.Succeeds

/-!
# What a compilation comes to

A source that is parsed is lowered as well: the parser has seen to it that the end tags of every
function find their elements open. So a compilation fails only for a source that cannot be parsed,
or for warnings that are errors. What it gives has no decorators.
-/

namespace MarkupScript

/-! ### Whether warnings are errors does not matter to lowering -/

section

variable (options : Options) (deny : Bool)

theorem Stmt.lower_denyWarnings (inner : List Stmt → Lower (List Stmt)) (s : Stmt) :
    s.lower inner { options with denyWarnings := deny } = s.lower inner options := by
  induction s using Stmt.induction with
  | step s _ ih =>
    have hnested := mapM_congr ih
    cases hf : s.isFunction with
    | true =>
      cases s with
      | function name params body own =>
        rw [lower_function, lower_function]
        exact congrArg (fun x => Lower.within _ x >>= _) hnested
      | _ => cases hf
    | false =>
      rw [lower_node _ _ hf, lower_node _ _ hf, hnested]
      rfl

theorem lowerBody_denyWarnings (depth : Nat) (body : List Stmt) :
    lowerBody { options with denyWarnings := deny } depth body = lowerBody options depth body := by
  induction depth generalizing body with
  | zero => rfl
  | succ depth ih =>
    have hinner : lowerBody { options with denyWarnings := deny } depth = lowerBody options depth :=
      funext ih
    simp only [lowerBody, lowerAll_eq, hinner, mapM_congr fun s (_ : s ∈ body) =>
      s.lower_denyWarnings options deny (lowerBody options depth)]

theorem Program.lowerTemplates_denyWarnings (p : Program) :
    p.lowerTemplates { options with denyWarnings := deny } = p.lowerTemplates options := by
  unfold lowerTemplates
  rw [lowerBody_denyWarnings]
  rfl

end

/-! ### The cases of a compilation -/

/-- The warnings about a program. -/
def Program.warnings (p : Program) : List Warning := p.attachDecorators.dropped.map .ofDropped

theorem compile_of_parse_error {source : String} {e : ParseError} (h : parse source = .error e)
    (options : Options) : compile source options = .error (.parse e) := by
  unfold compile
  rw [h]
  rfl

/-- The program that comes out for a source that is parsed. -/
theorem exists_lowered_of_parse {source : String} {p : Program} (h : parse source = .ok p)
    (options : Options) : ∃ q, p.attachDecorators.program.lowerTemplates options = .ok q :=
  Program.exists_lowerTemplates options (Program.attachDecorators_ready (parse_wellFormed h))

theorem compile_of_parse {source : String} {p q : Program} {options : Options}
    (h : parse source = .ok p) (hq : p.attachDecorators.program.lowerTemplates options = .ok q) :
    compile source options =
      if options.denyWarnings && !p.warnings.isEmpty then .error (.warnings p.warnings)
      else .ok ⟨q.print, q, p.warnings⟩ := by
  have hcompile : compile source options = (do
      let parsed ← (parse source).mapError .parse
      if options.denyWarnings && !parsed.warnings.isEmpty then
        throw (.warnings parsed.warnings)
      let lowered ← (parsed.attachDecorators.program.lowerTemplates options).mapError .lower
      return ⟨lowered.print, lowered, parsed.warnings⟩) := rfl
  rw [hcompile, h]
  change (do
      if options.denyWarnings && !p.warnings.isEmpty then throw (.warnings p.warnings)
      let lowered ← (p.attachDecorators.program.lowerTemplates options).mapError .lower
      return ⟨lowered.print, lowered, p.warnings⟩ : Except CompileError Compiled) = _
  rw [hq]
  split <;> rfl

/-- What parses is compiled, unless there are warnings and they are errors. -/
theorem compile_cases (source : String) (options : Options) :
    (∃ e, parse source = .error e) ∨
    ∃ p q, parse source = .ok p ∧ p.attachDecorators.program.lowerTemplates options = .ok q := by
  cases h : parse source with
  | error e => exact .inl ⟨e, rfl⟩
  | ok p =>
    obtain ⟨q, hq⟩ := exists_lowered_of_parse h options
    exact .inr ⟨p, q, rfl, hq⟩

/-- What a compilation that succeeds gives. -/
theorem exists_of_compile_eq_ok {source : String} {options : Options} {out : Compiled}
    (h : compile source options = .ok out) :
    ∃ p q, parse source = .ok p ∧ p.attachDecorators.program.lowerTemplates options = .ok q ∧
      out = ⟨q.print, q, p.warnings⟩ := by
  obtain ⟨e, hp⟩ | ⟨p, q, hp, hq⟩ := compile_cases source options
  · rw [compile_of_parse_error hp] at h
    cases h
  · rw [compile_of_parse hp hq] at h
    split at h
    · cases h
    · cases h
      exact ⟨p, q, hp, hq, rfl⟩

/-- **Lowering never fails in a compilation.** What was parsed is lowered. So the only difference
that it makes whether warnings are errors is this: a compilation that succeeds with warnings fails
with just these warnings. -/
theorem compile_ne_lower_error (source : String) (options : Options) :
    (∀ p, parse source = .ok p →
      ∃ q, p.attachDecorators.program.lowerTemplates options = .ok q) ∧
    (∀ e, compile source options ≠ .error (.lower e)) ∧
    (∀ ws, compile source { options with denyWarnings := true } = .error (.warnings ws) ↔
      ws ≠ [] ∧ ∃ out, compile source { options with denyWarnings := false } = .ok out ∧
        out.warnings = ws) ∧
    ((∀ ws, compile source { options with denyWarnings := true } ≠ .error (.warnings ws)) →
      compile source { options with denyWarnings := true } =
        compile source { options with denyWarnings := false }) := by
  refine ⟨fun p h => exists_lowered_of_parse h options, ?_⟩
  obtain ⟨e, h⟩ | ⟨p, q, h, hq⟩ := compile_cases source options
  · simp [compile_of_parse_error h]
  · have hdeny (deny : Bool) : p.attachDecorators.program.lowerTemplates
        { options with denyWarnings := deny } = .ok q := by
      rw [Program.lowerTemplates_denyWarnings, hq]
    rw [compile_of_parse h hq, compile_of_parse h (hdeny true), compile_of_parse h (hdeny false)]
    cases hws : p.warnings with
    | nil => simp
    | cons w ws =>
      refine ⟨fun e => ?_, ?_, ?_⟩
      · split <;> simp
      · simp only [Bool.true_and, List.isEmpty_cons, Bool.not_false, if_true, Bool.false_and,
          Bool.false_eq_true, if_false, Except.error.injEq, CompileError.warnings.injEq]
        intro ws'
        constructor
        · rintro rfl
          exact ⟨nofun, _, rfl, rfl⟩
        · rintro ⟨-, _, ⟨⟩, h⟩
          exact h
      · exact fun hne => absurd rfl (hne (w :: ws))

/-- A template function with markup in an arrow block of an attribute, and a decorator that no
function follows. -/
def warningText : String :=
  "@a function f() \x7b <p x=\x7b() => \x7b <q> </q> \x7d\x7d> 1 </p> \x7d @b"

theorem compile_warningText :
    (∃ p, parse warningText = .ok p ∧
      ∃ q, p.attachDecorators.program.lowerTemplates {} = .ok q) ∧
    ∃ out, compile warningText {} = .ok out ∧ out.warnings ≠ [] ∧
      compile warningText { denyWarnings := true } = .error (.warnings out.warnings) := by
  have hwarns : (compile warningText {}).toOption.any (!·.warnings.isEmpty) = true := by
    decide +kernel
  obtain ⟨hlower, -, hstrict, -⟩ := compile_ne_lower_error warningText {}
  cases hc : compile warningText {} with
  | error e =>
    rw [hc] at hwarns
    cases hwarns
  | ok out =>
    have hne : out.warnings ≠ [] := by
      intro hnil
      simp [hc, Except.toOption, hnil] at hwarns
    refine ⟨?_, out, rfl, hne, (hstrict out.warnings).mpr ⟨hne, out, hc, rfl⟩⟩
    obtain ⟨e, hp⟩ | ⟨p, q, hp, hq⟩ := compile_cases warningText {}
    · rw [compile_of_parse_error hp] at hc
      cases hc
    · exact ⟨p, hp, hlower p hp⟩

/-- **No decorator survives.** Nowhere in a compiled program is there a decorator that is a
statement or a function with a decorator: not in lists, branches, loops and exports, not in the
bodies of functions, and not in the arrow blocks of any expression, be it in the start of a loop,
the value of an attribute or an argument of an instruction. -/
theorem compile_decoratorFree {source : String} {options : Options} {out : Compiled}
    (h : compile source options = .ok out) :
    out.program.every (fun _ => true) Stmt.decoratorFree = true := by
  obtain ⟨e, hp⟩ | ⟨p, q, hp, hq⟩ := compile_cases source options
  · rw [compile_of_parse_error hp] at h
    cases h
  · have hready := Program.attachDecorators_ready (parse_wellFormed hp)
    rw [compile_of_parse hp hq] at h
    split at h
    · cases h
    · cases h
      exact Program.lowerTemplates_decoratorFree hready hq

/-- Decorators in branches, in the arrow blocks of attributes, of objects and of the start of a
loop, and a template function in markup that stays. -/
def decoratedText : String :=
  "<p x=\x7b() => \x7b @a function f() \x7b <q y=\x7b() => \x7b @b \x7d\x7d/> \x7d \x7d\x7d/>\n" ++
    "if (z) @c\nfor (let o = \x7bk: () => \x7b @d function g() \x7b\x7d \x7d\x7d;;) @e"

theorem compile_decoratedText :
    ∃ out, compile decoratedText {} = .ok out ∧
      out.program.every (fun _ => true) Stmt.decoratorFree = true := by
  have hok : (compile decoratedText {}).toBool = true := by decide +kernel
  cases hc : compile decoratedText {} with
  | error e =>
    rw [hc] at hok
    cases hok
  | ok out => exact ⟨out, rfl, compile_decoratorFree hc⟩

end MarkupScript
