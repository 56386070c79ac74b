import MarkupScript.Proofs.Tree.Every
import MarkupScript.Tree.Print

/-!
# Programs that read back

The text of a program says what the program is, with few exceptions. A decorator takes the next line
as its own, a number may have no literal, `new` takes the first arguments it finds, and a `<` behind
certain operands opens a tag. `Program.readsBack` tests that a program has none of these.
-/

namespace MarkupScript

namespace Expr

/-- Whether an expression can follow `new` without parentheses, if it is no looser than a call: a
name or literal, with properties behind dots. -/
def isPlainChain : Expr → Bool
  | member base _ computed optional _ => !computed && !optional && base.isPlainChain
  | call _ _ _ | new _ _ _ => false
  | _ => true

/-- Whether an expression is a name that is a keyword. -/
def isKeywordName : Expr → Bool
  | identifier name _ => Keyword.all.any (·.spelling = name)
  | _ => false

/-- Whether the text of an expression ends with a string or with a property that is a keyword. A
looser expression than these is in parentheses on the left of a comparison. -/
def endsInText : Expr → Bool
  | string _ _ => true
  | member _ property computed _ _ => !computed && property.isKeywordName
  | binary _ op right _ =>
    Level.binary op < right.level && !(op == .nullish && right.isLogical) && right.endsInText
  | unary _ operand _ => Level.unary ≤ operand.level && operand.endsInText
  | update _ inFront operand _ => inFront && Level.unary ≤ operand.level && operand.endsInText
  | _ => false

/-- Whether an expression is a number, a boolean or null. -/
def isConstant : Expr → Bool
  | number _ _ | boolean _ _ | null _ => true
  | _ => false

/-- Whether a `<` behind the text of an expression compares, if `least` is the level of the
comparison. -/
def isCompared (e : Expr) (least : Nat) : Bool :=
  !e.isConstant && (e.level < least || !e.endsInText)

/-- Whether the text of an expression shows its outermost form. -/
def readsBack : Expr → Bool
  | number value _ => value.isFinite
  | new callee _ _ => callee.isCall || callee.isPlainChain
  | binary left op _ _ =>
    !(op == .less || op == .lessEqual) || left.isCompared (Level.binary op)
  | _ => true

end Expr

/-- Whether the text of a statement shows its outermost form. -/
def Stmt.readsBack : Stmt → Bool
  | .decorator _ => false
  | _ => true

/-- Whether the text of a program shows the form of all its parts. -/
def Program.readsBack (p : Program) : Bool := p.every Expr.readsBack Stmt.readsBack

end MarkupScript
