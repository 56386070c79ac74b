import MarkupScript.Proofs.Tree.Fill

/-!
# Callbacks on arrow blocks

A pass hands the arrow blocks of a statement to a callback, which has a state and may fail. What
the callback does with a block depends on the blocks before it, so the order of the calls matters:
they go from left to right, there is one for each arrow block, and the first failure ends them
(`Stmt.mapArrowBlocks_calls`).
-/

namespace MarkupScript

/-- What is done with an arrow block. A callback keeps its state when it fails. -/
abbrev Callback (σ ε : Type) := List Stmt → ExceptT ε (StateM σ) (List Stmt)

namespace Callback

variable {σ ε : Type} {f : Callback σ ε} {st st₁ st₂ : σ} {b : List Stmt}
  {bs answers : List (List Stmt)}

/-- The callback that notes the blocks it is called on, latest last, and does the same otherwise. -/
def noting (f : Callback σ ε) : Callback (σ × List (List Stmt)) ε := fun b st =>
  ((f b st.1).1, (f b st.1).2, st.2 ++ [b])

theorem noting_of_eq {answer : Except ε (List Stmt)} (h : f b st = (answer, st₁))
    (calls : List (List Stmt)) : f.noting b (st, calls) = (answer, st₁, calls ++ [b]) := by
  simp only [noting, h]

/-- Called on one block after the other, the callback answers all of them. -/
inductive Answers (f : Callback σ ε) : σ → List (List Stmt) → List (List Stmt) → σ → Prop
  | nil (st : σ) : Answers f st [] [] st
  | cons {st st₁ st₂ : σ} {b a : List Stmt} {bs as : List (List Stmt)} :
      f b st = (.ok a, st₁) → Answers f st₁ bs as st₂ → Answers f st (b :: bs) (a :: as) st₂

/-- The callback that answers with the block itself. -/
theorem Answers.same (st : σ) (bs : List (List Stmt)) :
    Answers (pure : Callback σ ε) st bs bs st := by
  induction bs with
  | nil => exact .nil st
  | cons b bs ih => exact .cons rfl ih

theorem Answers.length_eq (h : f.Answers st bs answers st₁) : answers.length = bs.length := by
  induction h with
  | nil => rfl
  | cons _ _ ih => rw [List.length_cons, List.length_cons, ih]

/-- Noting the calls does not change the answers. -/
theorem Answers.noting (h : f.Answers st bs answers st₁) (calls : List (List Stmt)) :
    f.noting.Answers (st, calls) bs answers (st₁, calls ++ bs) := by
  induction h generalizing calls with
  | nil st =>
    rw [List.append_nil]
    exact .nil _
  | @cons st st₁ st₂ b a bs as hb _ ih =>
    have hrest := ih (calls ++ [b])
    rw [List.append_assoc, List.singleton_append] at hrest
    exact .cons (noting_of_eq hb calls) hrest

/-! ### Going through a list of blocks -/

theorem bind_apply_ok {α β : Type} {x : ExceptT ε (StateM σ) α} {a : α}
    (g : α → ExceptT ε (StateM σ) β) (h : x st = (.ok a, st₁)) : (x >>= g) st = g a st₁ := by
  rw [show (x >>= g) st = ExceptT.bindCont g (x st).1 (x st).2 from rfl, h]
  rfl

theorem bind_apply_error {α β : Type} {x : ExceptT ε (StateM σ) α} {e : ε}
    (g : α → ExceptT ε (StateM σ) β) (h : x st = (.error e, st₁)) :
    (x >>= g) st = (.error e, st₁) := by
  rw [show (x >>= g) st = ExceptT.bindCont g (x st).1 (x st).2 from rfl, h]
  rfl

theorem Answers.mapM (h : f.Answers st bs answers st₁) : bs.mapM f st = (.ok answers, st₁) := by
  induction h with
  | nil => rfl
  | cons hb _ ih => rw [List.mapM_cons, bind_apply_ok _ hb, bind_apply_ok _ ih]; rfl

/-- Behind the first block that the callback fails on, it is not called again. -/
theorem Answers.mapM_error {e : ε} (h : f.Answers st bs answers st₁)
    (hb : f b st₁ = (.error e, st₂)) (rest : List (List Stmt)) :
    (bs ++ b :: rest).mapM f st = (.error e, st₂) := by
  induction h with
  | nil => rw [List.nil_append, List.mapM_cons, bind_apply_error _ hb]
  | cons hfirst _ ih =>
    rw [List.cons_append, List.mapM_cons, bind_apply_ok _ hfirst, bind_apply_error _ (ih hb)]

/-! ### Statements -/

theorem mapArrowBlocks_of_answers {s : Stmt} (h : f.Answers st s.arrowBlocks answers st₁) :
    s.mapArrowBlocks f st = (.ok (s.fill answers), st₁) := by
  rw [s.mapArrowBlocks_eq, map_eq_pure_bind, bind_apply_ok _ h.mapM]
  rfl

theorem mapArrowBlocks_of_fails {s : Stmt} {e : ε} {behind : List (List Stmt)}
    (hblocks : s.arrowBlocks = bs ++ b :: behind) (h : f.Answers st bs answers st₁)
    (hb : f b st₁ = (.error e, st₂)) : s.mapArrowBlocks f st = (.error e, st₂) := by
  rw [s.mapArrowBlocks_eq, hblocks, map_eq_pure_bind, bind_apply_error _ (h.mapM_error hb behind)]

end Callback

/-- **Calls on arrow blocks.** A callback that answers all arrow blocks of a statement in turn is
called on each of them once, from left to right, and its answers are filled in; put the blocks back
and the statement is as before. A callback that fails on one of them is called on the blocks up to
that one, and its error is the result. A callback that answers with the block itself changes
nothing. -/
theorem Stmt.mapArrowBlocks_calls {σ ε : Type} (s : Stmt) (f : Callback σ ε) (st : σ) :
    (∀ answers st₁, f.Answers st s.arrowBlocks answers st₁ →
      s.mapArrowBlocks f st = (.ok (s.fill answers), st₁) ∧
      s.mapArrowBlocks f.noting (st, []) = (.ok (s.fill answers), st₁, s.arrowBlocks) ∧
      (s.fill answers).arrowBlocks = answers ∧ (s.fill answers).fill s.arrowBlocks = s) ∧
    (∀ before b behind answers st₁ e st₂, s.arrowBlocks = before ++ b :: behind →
      f.Answers st before answers st₁ → f b st₁ = (.error e, st₂) →
      s.mapArrowBlocks f st = (.error e, st₂) ∧
      s.mapArrowBlocks f.noting (st, []) = (.error e, st₂, before ++ [b])) ∧
    s.mapArrowBlocks (pure : Callback σ ε) st = (.ok s, st) := by
  refine ⟨fun answers st₁ h => ⟨?_, ?_, ?_, ?_⟩,
    fun before b behind answers st₁ e st₂ hblocks h hb => ⟨?_, ?_⟩, ?_⟩
  · exact Callback.mapArrowBlocks_of_answers h
  · exact Callback.mapArrowBlocks_of_answers (h.noting [])
  · exact s.arrowBlocks_fill answers h.length_eq
  · rw [s.fill_fill answers s.arrowBlocks h.length_eq, s.fill_self]
  · exact Callback.mapArrowBlocks_of_fails hblocks h hb
  · exact Callback.mapArrowBlocks_of_fails hblocks (h.noting []) (Callback.noting_of_eq hb before)
  · rw [Callback.mapArrowBlocks_of_answers (.same st s.arrowBlocks), s.fill_self]

/-- The callback that puts an empty statement in front, as often as its state says. -/
def countdown : Callback Nat String := fun b n =>
  if n = 0 then (.error "stopped", 0) else (.ok (.empty :: b), n - 1)

/-- A `for` with arrow blocks in its start, in its test, in its update and in its body, which are
`first`, `second` and `third` and one more that does not belong to it. -/
def blockLoop (first second third : List Stmt) : Stmt :=
  .for_ (some (.declaration .let_ [⟨"a", some (.arrow ["x"] (.block first) default)⟩]))
    (some (.call (.identifier "f" default)
      [.arrow [] (.expression (.arrow ["y"] (.block second) default)) default] default))
    (some (.unary .not (.arrow [] (.block third) default) default))
    (.expression (.arrow [] (.block [.empty]) default))

theorem mapArrowBlocks_blockLoop :
    (blockLoop [.break_] [] [.continue_]).mapArrowBlocks countdown.noting (3, []) =
      (.ok (blockLoop [.empty, .break_] [.empty] [.empty, .continue_]), 0,
        [[.break_], [], [.continue_]]) ∧
    (blockLoop [.break_] [] [.continue_]).mapArrowBlocks countdown.noting (1, []) =
      (.error "stopped", 0, [[.break_], []]) := by
  constructor
  · have h : countdown.Answers 3 (blockLoop [.break_] [] [.continue_]).arrowBlocks
        [[.empty, .break_], [.empty], [.empty, .continue_]] 0 :=
      .cons rfl (.cons rfl (.cons rfl (.nil 0)))
    exact ((Stmt.mapArrowBlocks_calls _ countdown 3).1 _ _ h).2.1
  · have h : countdown.Answers 1 [[.break_]] [[.empty, .break_]] 0 := .cons rfl (.nil 0)
    exact ((Stmt.mapArrowBlocks_calls _ countdown 1).2.1 [[.break_]] [] [[.continue_]] _ 0 "stopped"
      0 rfl h rfl).2

end MarkupScript
