import MarkupScript.Tree.ArrowBlocks

/-!
# Attaching decorators

A decorator is written as a statement and belongs to the next function in document order, however
deep that lies. Going through a program, the decorator met last waits for a function; the first
function met takes it. A decorator is dropped if another one comes before a function does, or if
the program ends.

Afterwards no decorator stands as a statement. Where a decorator was the only statement of an `if`
or a loop, an empty statement stands in its place.
-/

namespace MarkupScript

/-- What is known of the decorators met so far. -/
structure Waiting where
  /-- The decorator that waits for a function. -/
  pending : Option Decorator
  /-- The decorators that got none, in document order. -/
  dropped : List Decorator

namespace Waiting

/-- Nothing met yet. -/
def start : Waiting := ⟨none, []⟩

/-- A decorator comes, and the one that waited is dropped. -/
def hold (d : Decorator) (w : Waiting) : Waiting := ⟨some d, w.dropped ++ w.pending.toList⟩

/-- The decorators that got no function in the end. -/
def remaining (w : Waiting) : List Decorator := w.dropped ++ w.pending.toList

end Waiting

/-- A walk through a program that keeps track of decorators. -/
abbrev Attach := StateM Waiting

/-- Takes the decorator that waits, if there is one. -/
def Attach.takePending : Attach (Option Decorator) :=
  modifyGet fun w => (w.pending, { w with pending := none })

section

-- What to do with an arrow block.
variable (inner : List Stmt → Attach (List Stmt))

mutual

/-- Attaches decorators in a statement that stands alone. -/
def Stmt.attach : Stmt → Attach Stmt
  | .decorator d => do
    modify (·.hold d)
    return .empty
  | .function name params body decorator => do
    let pending ← Attach.takePending
    return .function name params (← attachAll body) (pending.or decorator)
  | .export_ declared => return .export_ (← declared.attach)
  | .block body => return .block (← attachAll body)
  | .if_ test consequent alternate =>
    return .if_ (← test.mapArrowBlocks inner) (← consequent.attach) (← attach? alternate)
  | .while_ test body => return .while_ (← test.mapArrowBlocks inner) (← body.attach)
  | .for_ init test update body =>
    return .for_ (← stmtMapArrowBlocks? inner init) (← exprMapArrowBlocks? inner test)
      (← exprMapArrowBlocks? inner update) (← body.attach)
  | s => s.mapArrowBlocks inner

/-- Attaches decorators in a list of statements, from which those that are decorators vanish. -/
def attachAll : List Stmt → Attach (List Stmt)
  | [] => return []
  | .decorator d :: rest => do
    modify (·.hold d)
    attachAll rest
  | s :: rest => return (← s.attach) :: (← attachAll rest)

/-- Attaches decorators in a statement that may be missing. -/
def attach? : Option Stmt → Attach (Option Stmt)
  | none => return none
  | some s => return some (← s.attach)

end

end

/-- Attaches decorators in statements whose arrow blocks lie less than `depth` deep. -/
def attachBody : (depth : Nat) → List Stmt → Attach (List Stmt)
  | 0, body => return body
  | depth + 1, body => attachAll (attachBody depth) body

/-- A program with its decorators attached. -/
structure Attachment where
  program : Program
  /-- The decorators that no function follows, in document order. -/
  dropped : List Decorator

/-- Attaches every decorator of a program to the function it precedes. -/
def Program.attachDecorators (p : Program) : Attachment :=
  let (body, waiting) := (attachBody (p.arrowDepth + 1) p.body).run .start
  ⟨⟨body⟩, waiting.remaining⟩

end MarkupScript
