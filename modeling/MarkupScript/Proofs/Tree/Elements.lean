import MarkupScript.Tree.Basic

/-!
# Open elements

A start tag opens an element and an end tag ends the innermost open one. `elementsAfter` counts the
open elements through a statement in document order, branches and loops included. A function and an
arrow block have elements of their own, which do not count outside.
-/

namespace MarkupScript

mutual

/-- How many elements are open behind a statement with `n` open in front of it. There is no answer
if an end tag finds none open. -/
def Stmt.elementsAfter : Stmt → Nat → Option Nat
  | .elementStart _ _ _, n => some (n + 1)
  | .elementEnd _ _, n => if n = 0 then none else some (n - 1)
  | .if_ _ consequent alternate, n =>
    (consequent.elementsAfter n).bind fun m => elementsAfter? alternate m
  | .while_ _ body, n => body.elementsAfter n
  | .for_ _ _ _ body, n => body.elementsAfter n
  | .block body, n => elementsAfterAll body n
  | .export_ declared, n => declared.elementsAfter n
  | _, n => some n

/-- How many elements are open behind a list of statements. -/
def elementsAfterAll : List Stmt → Nat → Option Nat
  | [], n => some n
  | s :: rest, n => (s.elementsAfter n).bind fun m => elementsAfterAll rest m

/-- How many elements are open behind a statement that may be missing. -/
def elementsAfter? : Option Stmt → Nat → Option Nat
  | none, n => some n
  | some s, n => s.elementsAfter n

end

/-- Whether a statement is a start tag or an end tag. -/
def Stmt.isStartOrEnd : Stmt → Bool
  | .elementStart _ _ _ | .elementEnd _ _ => true
  | _ => false

/-- Whether every end tag of a function body finds an element open. -/
def Paired (body : List Stmt) : Prop := (elementsAfterAll body 0).isSome

end MarkupScript
