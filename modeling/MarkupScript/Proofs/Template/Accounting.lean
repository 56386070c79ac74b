import MarkupScript.Proofs.Compile
import MarkupScript.Proofs.Template.DocumentOrder

/-!
# Where decorators go

A decorator that attaching comes by is attached to a function or dropped, and what is dropped is
warned about. But attaching does not enter the arguments of decorators. A decorator in an arrow
block there stays behind with the arguments, and nothing is said about it.

`compile_decorators` accounts for all decorators of a program, wherever they are written.
-/

namespace MarkupScript

/-! ### All decorators of a program -/

/-- The decorator that a statement is. -/
def Stmt.decorator? : Stmt → Option Decorator
  | .decorator d => some d
  | _ => none

/-- The decorators in statements, at any depth and in document order. Those in the arguments of
other decorators count. -/
def decoratorsAll (ss : List Stmt) : List Decorator := (walkAll true ss).filterMap Stmt.decorator?

/-- The decorators of a program, at any depth and in document order. -/
def Program.decorators (p : Program) : List Decorator := decoratorsAll p.body

/-- The decorators in the arguments of a decorator. -/
def Decorator.inside (d : Decorator) : List Decorator :=
  (exprsArrowBlocks d.arguments).flatMap decoratorsAll

/-- A decorator behind those in its arguments. -/
def Decorator.withInside (d : Decorator) : List Decorator := d.inside ++ [d]

theorem Stmt.decorators_eq (s : Stmt) : (s.walk true).filterMap decorator? =
    s.arrowBlocks.flatMap decoratorsAll ++ (s.decorator?.toList ++ decoratorsAll s.nested) := by
  have hentered : s.entered true = s.arrowBlocks := by simp [entered]
  have hall : decoratorsAll = fun ss => (walkAll true ss).filterMap decorator? := rfl
  rw [walk_eq, List.filterMap_append, List.filterMap_flatMap, List.filterMap_cons, hentered, hall]
  cases s.decorator? <;> rfl

theorem decoratorsAll_eq (ss : List Stmt) :
    decoratorsAll ss = ss.flatMap fun s => (s.walk true).filterMap Stmt.decorator? := by
  rw [decoratorsAll, walkAll, List.filterMap_flatMap]

/-- The decorators that attaching comes by. -/
def met (es : List Event) : List Decorator := es.filterMap Event.decorator?

theorem met_flatMap (f : α → List Event) (as : List α) :
    met (as.flatMap f) = as.flatMap fun a => met (f a) :=
  List.filterMap_flatMap

theorem decoratorsAll_of_forall {ss : List Stmt}
    (h : ∀ s ∈ ss, (s.walk true).filterMap Stmt.decorator? =
      (met s.events).flatMap Decorator.withInside) :
    decoratorsAll ss = (met (eventsAll ss)).flatMap Decorator.withInside := by
  rw [decoratorsAll_eq, eventsAll, met_flatMap, List.flatMap_assoc]
  exact List.flatMap_congr h

/-- All decorators are those that attaching comes by, each behind those in its arguments. -/
theorem Stmt.decorators_eq_met (s : Stmt) : (s.walk true).filterMap decorator? =
    (met s.events).flatMap Decorator.withInside := by
  induction s using Stmt.induction with
  | step s ihBlocks ihNested =>
    cases hs : s.isDecorator with
    | true =>
      cases s with
      | decorator d =>
        obtain ⟨name, arguments, span⟩ := d
        rw [decorators_eq, events_eq]
        simp [decorator?, nested, entered, isDecorator, event?, met, Event.decorator?, eventsAll,
          decoratorsAll, walkAll, Decorator.withInside, Decorator.inside, arrowBlocks]
      | _ => cases hs
    | false =>
      have hentered : s.entered false = s.arrowBlocks := by simp [entered, hs]
      have hself : met s.event?.toList = [] ∧ s.decorator? = none := by
        cases s <;> first | exact ⟨rfl, rfl⟩ | cases hs
      have hblocks : s.arrowBlocks.flatMap decoratorsAll =
          (met (s.arrowBlocks.flatMap eventsAll)).flatMap Decorator.withInside := by
        rw [met_flatMap, List.flatMap_assoc]
        exact List.flatMap_congr fun b hb => decoratorsAll_of_forall (ihBlocks b hb)
      have hmet (es es' : List Event) : met (es ++ es') = met es ++ met es' :=
        List.filterMap_append
      rw [decorators_eq, events_eq, hentered, hmet, hmet, hself.1, hself.2, hblocks,
        decoratorsAll_of_forall ihNested]
      simp

/-! ### Attached or dropped -/

/-- The decorator of a function. -/
def Event.own? : Event → Option Decorator
  | decorator _ => none
  | function _ own => own

/-- The decorators of the functions of a program. -/
def Program.owned (p : Program) : List Decorator := p.events.filterMap Event.own?

/-- A replay loses no decorator: those that functions have got and those that remain are the ones
there were before it and the ones it came by. -/
theorem Waiting.settle_perm {es : List Event} (h : Undecorated es) (w : Waiting) :
    ((w.settle es).1.filterMap Event.own? ++ (w.settle es).2.remaining).Perm
      (w.remaining ++ met es) := by
  induction es generalizing w with
  | nil => simp [settle, met]
  | cons e es ih =>
    have hrest : Undecorated es := fun name own hm => h name own (List.mem_cons_of_mem e hm)
    cases e with
    | decorator d =>
      have hheld : (w.hold d).remaining ++ met es = w.remaining ++ met (.decorator d :: es) := by
        simp [hold, remaining, met, Event.decorator?]
      exact hheld ▸ ih hrest (w.hold d)
    | function name own =>
      obtain rfl := h name own List.mem_cons_self
      have ih := ih hrest { w with pending := none }
      have hown : (w.settle (.function name none :: es)).1.filterMap Event.own? =
          w.pending.toList ++
            (settle { w with pending := none } es).1.filterMap Event.own? := by
        cases hw : w.pending <;> simp [settle, Event.own?, hw, List.filterMap_cons]
      calc (w.settle (.function name none :: es)).1.filterMap Event.own? ++
            (w.settle (.function name none :: es)).2.remaining
        _ = w.pending.toList ++ ((settle { w with pending := none } es).1.filterMap Event.own? ++
              (settle { w with pending := none } es).2.remaining) := by
          rw [hown, List.append_assoc]
          rfl
        List.Perm _ (w.pending.toList ++ (w.dropped ++ met es)) := by
          simpa [remaining] using ih.append_left w.pending.toList
        List.Perm _ (w.remaining ++ met es) := by
          rw [← List.append_assoc, remaining]
          exact List.perm_append_comm.append_right _

/-- What functions have got and what is dropped are the decorators that attaching comes by. -/
theorem Program.attachDecorators_perm {p : Program} (h : Undecorated p.events) :
    (p.attachDecorators.program.owned ++ p.attachDecorators.dropped).Perm (met p.events) := by
  obtain ⟨⟨hevents, -⟩, hwaiting⟩ :=
    attachDeep_settles (fun s (_ : s ∈ p.body) => s.attachOne_settles) Waiting.start
  have howned : p.attachDecorators.program.owned =
      (Waiting.start.settle p.events).1.filterMap Event.own? :=
    congrArg (List.filterMap Event.own?) hevents.symm
  have hdropped : p.attachDecorators.dropped = (Waiting.start.settle p.events).2.remaining :=
    (congrArg Waiting.remaining hwaiting).symm
  rw [howned, hdropped]
  exact Waiting.start.settle_perm h

theorem length_flatMap_withInside (ds : List Decorator) :
    (ds.flatMap Decorator.withInside).length =
      ds.length + (ds.flatMap Decorator.inside).length := by
  induction ds with
  | nil => rfl
  | cons d ds ih =>
    simp only [List.flatMap_cons, List.length_append, ih, Decorator.withInside, List.length_cons,
      List.length_nil]
    omega

/-- **Where every decorator goes.** Take all decorators of a program that compiles, at any depth.
They are those that functions have got and those that are dropped, each with the decorators in its
own arguments, which go nowhere. So every decorator is attached or dropped just if no decorator has
others in its arguments. There is one warning for each decorator that is dropped, and no other. -/
theorem compile_decorators {source : String} {options : Options} {out : Compiled}
    (h : compile source options = .ok out) :
    ∃ p, parse source = .ok p ∧
      p.decorators.Perm ((p.attachDecorators.program.owned ++
        p.attachDecorators.dropped).flatMap Decorator.withInside) ∧
      (p.decorators.Perm (p.attachDecorators.program.owned ++ p.attachDecorators.dropped) ↔
        ∀ d ∈ p.decorators, d.inside = []) ∧
      out.warnings = p.attachDecorators.dropped.map Warning.ofDropped := by
  obtain ⟨p, q, hp, -, rfl⟩ := exists_of_compile_eq_ok h
  have hmet := Program.attachDecorators_perm (undecorated_of_parse hp)
  have hall : p.decorators.Perm ((p.attachDecorators.program.owned ++
      p.attachDecorators.dropped).flatMap Decorator.withInside) := by
    rw [Program.decorators, decoratorsAll_of_forall fun s _ => s.decorators_eq_met]
    exact (hmet.flatMap_right _).symm
  refine ⟨p, hp, hall, ?_, rfl⟩
  generalize p.attachDecorators.program.owned ++ p.attachDecorators.dropped = accounted at hall
  constructor
  · intro hperm d hd
    -- There are as many decorators as accounted for, so nothing is added for their arguments.
    have hlength := hall.length_eq.symm.trans hperm.length_eq
    rw [length_flatMap_withInside] at hlength
    have hnone : accounted.flatMap Decorator.inside = [] :=
      List.length_eq_zero_iff.mp (by omega)
    exact List.flatMap_eq_nil_iff.mp hnone d (hperm.mem_iff.mp hd)
  · intro hinside
    have hself : ∀ d ∈ accounted, d.withInside = [d] := by
      intro d hd
      have hmem : d ∈ p.decorators := by
        refine hall.mem_iff.mpr (List.mem_flatMap.mpr ⟨d, hd, ?_⟩)
        simp [Decorator.withInside]
      rw [Decorator.withInside, hinside d hmem, List.nil_append]
    rwa [List.flatMap_congr hself, List.flatMap_singleton'] at hall

/-- Decorators in one another, in an arrow block and in the arguments of one that is dropped. -/
def accountText : String :=
  "@a(() => \x7b @b function g() \x7b\x7d \x7d) @c function f() \x7b x = () => \x7b @d \x7d \x7d"

theorem compile_accountText :
    ∃ p out, compile accountText {} = .ok out ∧ parse accountText = .ok p ∧
      p.decorators.Perm ((p.attachDecorators.program.owned ++
        p.attachDecorators.dropped).flatMap Decorator.withInside) ∧
      out.warnings = p.attachDecorators.dropped.map Warning.ofDropped ∧
      out.warnings.map (fun w => (w.line, w.column)) = [(1, 1), (1, 64)] := by
  have hplaces : (compile accountText {}).toOption.map
      (·.warnings.map fun w => (w.line, w.column)) = some [(1, 1), (1, 64)] := by decide +kernel
  cases hout : compile accountText {} with
  | error e =>
    rw [hout] at hplaces
    cases hplaces
  | ok out =>
    rw [hout] at hplaces
    obtain ⟨p, hp, hall, -, hwarnings⟩ := compile_decorators hout
    exact ⟨p, out, rfl, hp, hall, hwarnings, Option.some.inj hplaces⟩

/-- A decorator in the arguments of another one. -/
def lostText : String := "@a(() => \x7b @b \x7d)\nfunction f() \x7b\x7d"

/-- Whether a program is a function behind a decorator with a decorator in its arguments. -/
def isLost : Program → Bool
  | ⟨[.decorator ⟨"a", [.arrow [] (.block [.decorator ⟨"b", [], _⟩]) _], _⟩,
      .function _ _ [] none]⟩ => true
  | _ => false

/-- Whether a statement is a function that has got a decorator with a name. -/
def Stmt.isDecoratedBy (name : String) : Stmt → Bool
  | .function _ _ _ (some d) => d.name == name
  | _ => false

/-- A decorator in the arguments of another one is lost: no function has got it, not even one in
arguments, it is not dropped, and there is no warning. -/
theorem compile_lostText :
    ∃ p out d, parse lostText = .ok p ∧ compile lostText {} = .ok out ∧ d ∈ p.decorators ∧
      p.attachDecorators.program.every (fun _ => true) (fun s => !s.isDecoratedBy d.name) = true ∧
      p.attachDecorators.dropped = [] ∧ out.warnings = [] := by
  have hok : (compile lostText {}).toBool = true := by decide +kernel
  have hshape : (parse lostText).toOption.any isLost = true := by decide +kernel
  cases hout : compile lostText {} with
  | error e =>
    rw [hout] at hok
    cases hok
  | ok out =>
    obtain ⟨p, q, hp, -, rfl⟩ := exists_of_compile_eq_ok hout
    rw [hp] at hshape
    simp only [Except.toOption, Option.any_some] at hshape
    unfold isLost at hshape
    split at hshape
    · next span _ _ _ _ =>
      have hinner : .decorator ⟨"b", [], span⟩ ∈ walkAll true [.decorator ⟨"b", [], span⟩] :=
        mem_walkAll.mpr ⟨_, List.mem_cons_self, Stmt.mem_walk.mpr (.inr (.inl rfl))⟩
      refine ⟨_, _, ⟨"b", [], span⟩, hp, rfl, ?_, rfl, rfl, rfl⟩
      refine List.mem_filterMap.mpr ⟨.decorator _, mem_walkAll.mpr ⟨_, List.mem_cons_self, ?_⟩, rfl⟩
      exact Stmt.mem_walk.mpr (.inl ⟨_, List.mem_cons_self, hinner⟩)
    · cases hshape

end MarkupScript
