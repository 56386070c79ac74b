import MarkupScript.Proofs.Parse.Results
import MarkupScript.Proofs.Template.Attach
import MarkupScript.Proofs.Tree.Reached

/-!
# Decorators and functions in document order

Written one behind the other in document order, the decorators and functions of a program say it
all: a function gets the decorator directly in front of it, a decorator is dropped unless a function
stands directly behind it, and apart from that the decorators just vanish.
-/

namespace MarkupScript

/-! ### Events -/

/-- What counts for attaching: a decorator, or a function with the decorator it has. -/
inductive Event where
  | decorator (d : Decorator)
  | function (name : String) (own : Option Decorator)

namespace Event

/-- The decorator that is met. -/
def decorator? : Event → Option Decorator
  | decorator d => some d
  | function _ _ => none

/-- The name of the function that is met. -/
def function? : Event → Option String
  | decorator _ => none
  | function name _ => some name

end Event

/-- What a statement is for attaching. -/
def Stmt.event? : Stmt → Option Event
  | .decorator d => some (.decorator d)
  | .function name _ _ own => some (.function name own)
  | _ => none

/-- The decorators and functions in a statement, in document order. The arguments of decorators are
not entered. -/
def Stmt.events (s : Stmt) : List Event := (s.walk false).filterMap Stmt.event?

/-- The decorators and functions in statements, in document order. -/
def eventsAll (ss : List Stmt) : List Event := ss.flatMap Stmt.events

/-- The decorators and functions of a program, in document order. -/
def Program.events (p : Program) : List Event := eventsAll p.body

theorem Stmt.events_eq (s : Stmt) : s.events =
    (s.entered false).flatMap eventsAll ++ (s.event?.toList ++ eventsAll s.nested) := by
  have hall : eventsAll = fun ss => (walkAll false ss).filterMap Stmt.event? :=
    funext fun ss => by rw [walkAll, List.filterMap_flatMap]; rfl
  rw [events, walk_eq, List.filterMap_append, List.filterMap_flatMap, List.filterMap_cons, hall]
  cases s.event? <;> rfl

/-! ### Replaying events -/

/-- Replays decorators and functions: every function takes the decorator that waits for it. Left of
them are the functions with what they got. -/
def Waiting.settle (w : Waiting) : List Event → List Event × Waiting
  | [] => ([], w)
  | .decorator d :: es => (w.hold d).settle es
  | .function name own :: es =>
    let (fs, w') := settle { w with pending := none } es
    (.function name (w.pending.or own) :: fs, w')

theorem Waiting.settle_append (w : Waiting) (es es' : List Event) : w.settle (es ++ es') =
    ((w.settle es).1 ++ ((w.settle es).2.settle es').1, ((w.settle es).2.settle es').2) := by
  induction es generalizing w with
  | nil => rfl
  | cons e es ih => cases e <;> simp [settle, ih]

/-- From any state, `x` does to it what a replay of `es` does, and `Q` holds of the functions left
by the replay and of the result of `x`. -/
def Attach.Settles (x : Attach α) (es : List Event) (Q : List Event → α → Prop) : Prop :=
  ∀ w : Waiting, Q (w.settle es).1 (x w).1 ∧ (w.settle es).2 = (x w).2

namespace Attach.Settles

theorem pure {Q : List Event → α → Prop} {a : α} (h : Q [] a) :
    Settles (Pure.pure a : Attach α) [] Q :=
  fun _ => ⟨h, rfl⟩

theorem bind {x : Attach α} {k : α → Attach β} {es es' : List Event} {P : List Event → α → Prop}
    {Q : List Event → β → Prop} (hx : Settles x es P)
    (hk : ∀ fs a, P fs a → Settles (k a) es' fun gs b => Q (fs ++ gs) b) :
    Settles (x >>= k) (es ++ es') Q := by
  intro w
  obtain ⟨hP, hw⟩ := hx w
  obtain ⟨hQ, hw'⟩ := hk _ _ hP (x w).2
  rw [w.settle_append, hw]
  exact ⟨hQ, hw'⟩

theorem map {x : Attach α} {es : List Event} {f : α → β} {Q : List Event → β → Prop}
    (hx : Settles x es fun fs a => Q fs (f a)) : Settles (f <$> x) es Q :=
  hx

theorem mono {x : Attach α} {es : List Event} {P Q : List Event → α → Prop}
    (hx : Settles x es P) (h : ∀ fs a, P fs a → Q fs a) : Settles x es Q :=
  fun w => ⟨h _ _ (hx w).1, (hx w).2⟩

/-- A list is treated item by item. -/
theorem mapM {f : α → Attach β} {events : α → List Event} {view : β → List Event} {g : β → γ}
    {g' : α → γ} {as : List α}
    (hf : ∀ a ∈ as, Settles (f a) (events a) fun fs b => fs = view b ∧ g b = g' a) :
    Settles (as.mapM f) (as.flatMap events) fun fs bs => fs = bs.flatMap view ∧
      bs.map g = as.map g' := by
  induction as with
  | nil => exact pure ⟨rfl, rfl⟩
  | cons a as ih =>
    rw [List.mapM_cons, List.flatMap_cons]
    refine bind (hf a List.mem_cons_self) fun fs b hb => ?_
    rw [bind_pure_comp]
    refine map (mono (ih fun a' h => hf a' (List.mem_cons_of_mem a h)) fun gs bs hbs => ?_)
    simp [hb.1, hb.2, hbs.1, hbs.2]

end Attach.Settles

/-! ### Attaching replays the events -/

namespace Stmt

/-- A statement without its decorator. -/
def undecorated : Stmt → Stmt
  | .function name params body _ => .function name params body none
  | s => s

/-- Removes decorators that are statements. -/
def plain? (s : Stmt) : Option Stmt := if s.isDecorator then none else some s

/-- Removes decorators, whether they are statements or belong to a function. -/
def bare? (s : Stmt) : Option Stmt := s.plain?.map undecorated

theorem bare?_decorated {s : Stmt} (h : s.isDecorator = false) (d : Option Decorator) :
    some (s.decorated d).undecorated = s.bare? := by
  cases s <;> first | rfl | cases h

end Stmt

/-- What is left of statements after attaching. -/
def keptEvents (o : Option Stmt) : List Event := eventsAll o.toList

theorem eventsAll_filterMap (ts : List (Option Stmt)) :
    eventsAll (ts.filterMap id) = ts.flatMap keptEvents := by
  induction ts with
  | nil => rfl
  | cons t ts ih =>
    cases t with
    | none => exact ih
    | some t => simp [eventsAll, keptEvents] at ih ⊢; exact ih

theorem Stmt.events_empty : Stmt.events .empty = [] := by
  simp [events_eq, entered, arrowBlocks, event?, nested, eventsAll]

theorem eventsAll_getD (ts : List (Option Stmt)) :
    eventsAll (ts.map (·.getD .empty)) = ts.flatMap keptEvents := by
  induction ts with
  | nil => rfl
  | cons t ts ih =>
    cases t <;> simp_all [eventsAll, keptEvents, Stmt.events_empty]

namespace Stmt

section

variable {s : Stmt} {bs : List (List Stmt)} {ts : List (Option Stmt)} {d : Option Decorator}

/-- The decorators and functions in a statement that was put together again. -/
theorem events_rebuilt (hs : s.isDecorator = false) (hbs : bs.length = s.arrowBlocks.length)
    (hts : ts.length = s.nested.length) :
    (((s.fill bs).withNested ts).decorated d).events =
      bs.flatMap eventsAll ++ ((s.decorated d).event?.toList ++ ts.flatMap keptEvents) := by
  have hentered : (((s.fill bs).withNested ts).decorated d).entered false = bs := by
    rw [entered, isDecorator_decorated, isDecorator_withNested, isDecorator_fill, hs]
    exact arrowBlocks_rebuilt hbs
  have hevent : (((s.fill bs).withNested ts).decorated d).event? = (s.decorated d).event? := by
    cases s <;> first | rfl | cases hs
  have hnested : eventsAll (((s.fill bs).withNested ts).decorated d).nested =
      ts.flatMap keptEvents := by
    rw [nested_decorated, nested_withNested (by rw [nested_fill, hts])]
    split
    · exact eventsAll_filterMap ts
    · exact eventsAll_getD ts
  rw [events_eq, hentered, hevent, hnested]

theorem rewrite_empty : rewrite (some ·.undecorated) .empty = some .empty := by
  rw [rewrite_eq]
  rfl

/-- What is left of a statement that was put together again once its decorators are removed. -/
theorem rewrite_rebuilt (hs : s.isDecorator = false) (hbs : bs.length = s.arrowBlocks.length)
    (hts : ts.length = s.nested.length)
    (hblocks : bs.map (rewriteAll (some ·.undecorated)) = s.arrowBlocks.map (rewriteAll bare?))
    (hnested : ts.map (·.bind (rewrite (some ·.undecorated))) = s.nested.map (rewrite bare?)) :
    (((s.fill bs).withNested ts).decorated d).rewrite (some ·.undecorated) = s.rewrite bare? := by
  have hempty : (rewrite (some ·.undecorated) .empty).getD .empty = .empty := by
    rw [rewrite_empty]
    rfl
  have hs' : ((s.withNested (s.nested.map (rewrite bare?))).fill
      (s.arrowBlocks.map (rewriteAll bare?))).isDecorator = false := by simpa using hs
  rw [rewrite_eq, arrowBlocks_rebuilt hbs, hblocks, nested_decorated, fill_decorated,
    withNested_decorated, ← fill_withNested s bs, nested_fill, fill_fill _ _ _ (by simpa using hbs),
    ← fill_withNested, withNested_withNested, withNested_map_nested hts hempty, hnested,
    bare?_decorated hs', fill_withNested, s.rewrite_eq bare?]

end

end Stmt

theorem Stmt.takePending_settles {s : Stmt} (h : s.isDecorator = false) :
    s.takePending.Settles s.event?.toList fun fs d => fs = (s.decorated d).event?.toList := by
  cases s with
  | decorator d => cases h
  | function name params body own => exact fun w => ⟨rfl, rfl⟩
  | _ => exact fun w => ⟨rfl, rfl⟩

theorem attachDeep_settles {body : List Stmt}
    (h : ∀ s ∈ body, (s.attachOne attachDeep).Settles s.events fun fs o => fs = keptEvents o ∧
      o.bind (Stmt.rewrite (some ·.undecorated)) = s.rewrite Stmt.bare?) :
    (attachDeep body).Settles (eventsAll body) fun fs body' => fs = eventsAll body' ∧
      rewriteAll (some ·.undecorated) body' = rewriteAll Stmt.bare? body := by
  rw [attachDeep_eq]
  refine .map (.mono (.mapM h) fun fs os ⟨hfs, hos⟩ => ⟨?_, ?_⟩)
  · rw [hfs, eventsAll_filterMap]
  · have hkept : (os.map (·.bind (Stmt.rewrite (some ·.undecorated)))).filterMap id =
        (body.map (Stmt.rewrite Stmt.bare?)).filterMap id := by rw [hos]
    simp only [List.filterMap_map, Function.id_comp] at hkept
    simp only [rewriteAll, List.filterMap_filterMap]
    exact hkept

/-- Attaching replays the decorators and functions of a statement, and besides that the decorators
vanish from it. -/
theorem Stmt.attachOne_settles (s : Stmt) :
    (s.attachOne attachDeep).Settles s.events fun fs o => fs = keptEvents o ∧
      o.bind (rewrite (some ·.undecorated)) = s.rewrite bare? := by
  induction s using Stmt.induction with
  | step s ihBlocks ihNested =>
    cases hs : s.isDecorator with
    | true =>
      cases s with
      | decorator d =>
        cases d
        rw [events_eq, rewrite_eq]
        exact fun w => ⟨⟨rfl, rfl⟩, rfl⟩
      | _ => cases hs
    | false =>
      have hentered : s.entered false = s.arrowBlocks := by simp [entered, hs]
      rw [attachOne_node _ hs, events_eq, hentered]
      refine .bind (.mapM fun b hb => attachDeep_settles (ihBlocks b hb)) fun fs bs ⟨hfs, hbs⟩ => ?_
      refine .bind (takePending_settles hs) fun gs d hgs => ?_
      rw [bind_pure_comp]
      refine .map (.mono (.mapM ihNested) fun us ts ⟨hus, hts⟩ => ?_)
      have hlenB : bs.length = s.arrowBlocks.length := by simpa using congrArg List.length hbs
      have hlenN : ts.length = s.nested.length := by simpa using congrArg List.length hts
      refine ⟨?_, rewrite_rebuilt hs hlenB hlenN hbs hts⟩
      rw [hfs, hgs, hus, keptEvents, Option.toList_some, eventsAll, List.flatMap_singleton,
        events_rebuilt hs hlenB hlenN]

/-! ### Neighbours among events -/

/-- The functions among events, each with the decorator directly in front of it. -/
def withNeighbour (es : List Event) : List Event :=
  ((none :: es.map some).zip es).filterMap fun (before, e) =>
    e.function?.map fun name => .function name (before.bind Event.decorator?)

/-- The decorators among events that no function stands directly behind. -/
def unfollowed (es : List Event) : List Decorator :=
  (es.zip (es.tail.map some ++ [none])).filterMap fun (e, behind) =>
    if (behind.bind Event.function?).isSome then none else e.decorator?

theorem unfollowed_cons (e : Event) (es : List Event) : unfollowed (e :: es) =
    (if (es.head?.bind Event.function?).isSome then [] else e.decorator?.toList) ++
      unfollowed es := by
  cases es with
  | nil => cases e <;> rfl
  | cons e' es => cases e <;> cases e' <;> rfl

/-- No function among the events has a decorator of its own. -/
def Undecorated (es : List Event) : Prop := ∀ name own, .function name own ∈ es → own = none

/-- A replay gives every function what stands directly in front of it. -/
theorem Waiting.settle_functions {es : List Event} (h : Undecorated es) (w : Waiting)
    (before : Option Event) (hw : before.bind Event.decorator? = w.pending) :
    (w.settle es).1 = ((before :: es.map some).zip es).filterMap fun (before, e) =>
      e.function?.map fun name => .function name (before.bind Event.decorator?) := by
  induction es generalizing w before with
  | nil => rfl
  | cons e es ih =>
    have hrest : Undecorated es := fun name own hm => h name own (List.mem_cons_of_mem e hm)
    cases e with
    | decorator d =>
      simp [settle, Event.function?, ih hrest (w.hold d) (some (.decorator d)) rfl]
    | function name own =>
      obtain rfl := h name own List.mem_cons_self
      simp [settle, Event.function?, hw,
        ih hrest { w with pending := none } (some (.function name none)) rfl]

/-- A replay drops what no function stands directly behind. -/
theorem Waiting.settle_remaining (es : List Event) (w : Waiting) :
    (w.settle es).2.remaining = w.dropped ++
      (if (es.head?.bind Event.function?).isSome then [] else w.pending.toList) ++
        unfollowed es := by
  induction es generalizing w with
  | nil => simp [settle, remaining, unfollowed]
  | cons e es ih =>
    cases e with
    | decorator d => simp [settle, ih, unfollowed_cons, hold, Event.function?, Event.decorator?]
    | function name own =>
      simp [settle, ih, unfollowed_cons, Event.function?, Event.decorator?]

theorem Undecorated.of_subset {es es' : List Event} (h : Undecorated es) (hs : es' ⊆ es) :
    Undecorated es' :=
  fun name own hm => h name own (hs hm)

/-- Without decorated functions, all there is to remove are statements. -/
theorem Stmt.rewrite_bare? (s : Stmt) (h : Undecorated s.events) :
    s.rewrite bare? = s.rewrite plain? := by
  induction s using Stmt.induction with
  | step s ihBlocks ihNested =>
    rw [rewrite_eq bare?, rewrite_eq plain?]
    cases hs : s.isDecorator with
    | true =>
      cases s with
      | decorator d =>
        cases d
        rfl
      | _ => cases hs
    | false =>
      have hentered : s.entered false = s.arrowBlocks := by simp [entered, hs]
      rw [events_eq, hentered] at h
      have hblocks : s.arrowBlocks.map (rewriteAll bare?) =
          s.arrowBlocks.map (rewriteAll plain?) := by
        refine List.map_congr_left fun b hb => List.filterMap_congr fun t ht => ?_
        refine ihBlocks b hb t ht (h.of_subset fun e he => List.mem_append_left _ ?_)
        exact List.mem_flatMap.mpr ⟨b, hb, List.mem_flatMap.mpr ⟨t, ht, he⟩⟩
      have hnested : s.nested.map (rewrite bare?) = s.nested.map (rewrite plain?) := by
        refine List.map_congr_left fun t ht => ihNested t ht (h.of_subset fun e he => ?_)
        exact List.mem_append_right _
          (List.mem_append_right _ (List.mem_flatMap.mpr ⟨t, ht, he⟩))
      rw [hblocks, hnested]
      cases s with
      | function name params body own =>
        obtain rfl := h name own (by simp [event?])
        rfl
      | decorator d => cases hs
      | _ => rfl

/-- No function has a decorator yet in a program that was parsed. -/
theorem undecorated_of_parse {source : String} {p : Program} (h : parse source = .ok p) :
    Undecorated p.events := by
  intro name own hmem
  obtain ⟨s, hs, hmem⟩ := List.mem_flatMap.mp hmem
  obtain ⟨t, ht, hevent⟩ := List.mem_filterMap.mp hmem
  have hwf := s.walk_wellFormed false (stmtsWellFormed_iff.mp (parse_wellFormed h).1 s hs) t ht
  cases t with
  | function =>
    cases hevent
    exact Option.isNone_iff_eq_none.mp hwf.2.2.2.2
  | _ => cases hevent

/-- **Attaching in document order.** In a program without decorated functions, such as every program
that was parsed, a function gets the decorator directly in front of it among the events of the
program, the decorators that no function stands directly behind are dropped, and apart from the
decorators of functions the program is what it was, without the decorators that were statements. -/
theorem Program.attachDecorators_eq (p : Program) :
    (∀ source, parse source = .ok p → Undecorated p.events) ∧
    (Undecorated p.events →
      p.attachDecorators.program.events = withNeighbour p.events ∧
      p.attachDecorators.dropped = unfollowed p.events ∧
      p.attachDecorators.program.rewrite (some ·.undecorated) = p.rewrite Stmt.plain?) := by
  refine ⟨fun source => undecorated_of_parse, fun h => ?_⟩
  obtain ⟨⟨hevents, hrewrite⟩, hwaiting⟩ :=
    attachDeep_settles (fun s (_ : s ∈ p.body) => s.attachOne_settles) Waiting.start
  refine ⟨?_, ?_, ?_⟩
  · exact hevents.symm.trans (Waiting.start.settle_functions h none rfl)
  · calc p.attachDecorators.dropped
      _ = (Waiting.start.settle p.events).2.remaining := (congrArg Waiting.remaining hwaiting).symm
      _ = unfollowed p.events := by
        rw [Waiting.settle_remaining]
        simp [Waiting.start]
  · refine congrArg Program.mk (hrewrite.trans (List.filterMap_congr fun s hs => ?_))
    exact s.rewrite_bare? (h.of_subset fun e he => List.mem_flatMap.mpr ⟨s, hs, he⟩)

/-- A decorator without arguments. -/
def Decorator.named (name : String) : Decorator := ⟨name, [], default⟩

/-- `@a @b while (x) @c x = () => { function f() {} } function g() {} @d` -/
def scattered : Program :=
  let x : Expr := .identifier "x" default
  let block : ArrowBody := .block [.function "f" [] [] none]
  ⟨[.decorator (.named "a"), .decorator (.named "b"), .while_ x (.decorator (.named "c")),
    .expression (.assignment x .assign (.arrow [] block default) default),
    .function "g" [] [] none, .decorator (.named "d")]⟩

theorem attachDecorators_scattered :
    (∃ p, parse "@a function f() \x7b\x7d" = .ok p ∧ Undecorated p.events) ∧
    Undecorated scattered.events ∧
    scattered.attachDecorators.program.events =
      [.function "f" (some (.named "c")), .function "g" none] ∧
    scattered.attachDecorators.dropped = [.named "a", .named "b", .named "d"] ∧
    scattered.attachDecorators.program.rewrite (some ·.undecorated) =
      scattered.rewrite Stmt.plain? := by
  have hparse : (parse "@a function f() \x7b\x7d").toBool = true := by decide +kernel
  have hevents : scattered.events = [.decorator (.named "a"), .decorator (.named "b"),
      .decorator (.named "c"), .function "f" none, .function "g" none,
      .decorator (.named "d")] := by
    simp [scattered, Program.events, eventsAll, Stmt.events_eq, Stmt.entered, Stmt.isDecorator,
      Stmt.arrowBlocks, Expr.arrowBlocks, ArrowBody.arrowBlocks, Stmt.nested, Stmt.event?]
  have h : Undecorated scattered.events := by
    intro name own hm
    simp only [hevents, List.mem_cons, reduceCtorEq, Event.function.injEq, false_or,
      List.not_mem_nil, or_false] at hm
    rcases hm with ⟨-, rfl⟩ | ⟨-, rfl⟩ <;> rfl
  obtain ⟨hfunctions, hdropped, hrest⟩ := (Program.attachDecorators_eq scattered).2 h
  refine ⟨?_, h, ?_, ?_, hrest⟩
  · cases hp : parse "@a function f() \x7b\x7d" with
    | error e =>
      rw [hp] at hparse
      cases hparse
    | ok p => exact ⟨p, rfl, (Program.attachDecorators_eq p).1 _ hp⟩
  · rw [hfunctions, hevents]
    rfl
  · rw [hdropped, hevents]
    rfl

end MarkupScript
