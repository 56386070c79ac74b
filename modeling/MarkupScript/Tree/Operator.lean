import MarkupScript.Token.Basic

/-!
# Operators

The operators of expressions, the marks that spell them, and how tightly the binary ones bind.
-/

namespace MarkupScript

/-- Operators between two operands. -/
inductive BinaryOp where
  | add | sub | mul | div | mod
  | equal | notEqual | strictEqual | strictNotEqual
  | less | greater | lessEqual | greaterEqual
  | and | or | nullish
  deriving DecidableEq, Repr

/-- Operators in front of one operand. -/
inductive UnaryOp where
  | not | negate | plus | typeof_
  deriving DecidableEq, Repr

/-- Operators that change a variable or property by one. -/
inductive UpdateOp where
  | increment | decrement
  deriving DecidableEq, Repr

/-- Operators that store into a variable or property. -/
inductive AssignOp where
  | assign | addAssign | subAssign | mulAssign | divAssign
  deriving DecidableEq, Repr

/-- The words that declare variables. -/
inductive VariableKind where
  | let_ | const_ | var_
  deriving DecidableEq, Repr

namespace BinaryOp

/-- The mark of a binary operator. -/
def symbol : BinaryOp → Symbol
  | add => .plus | sub => .minus | mul => .star | div => .slash | mod => .percent
  | equal => .equal | notEqual => .notEqual
  | strictEqual => .strictEqual | strictNotEqual => .strictNotEqual
  | less => .less | greater => .greater | lessEqual => .lessEqual | greaterEqual => .greaterEqual
  | and => .and | or => .or | nullish => .nullish

/-- The binary operator that a token stands for. -/
def ofKind? : Kind → Option BinaryOp
  | .symbol s => match s with
    | .plus => some add | .minus => some sub | .star => some mul | .slash => some div
    | .percent => some mod
    | .equal => some equal | .notEqual => some notEqual
    | .strictEqual => some strictEqual | .strictNotEqual => some strictNotEqual
    | .less => some less | .greater => some greater
    | .lessEqual => some lessEqual | .greaterEqual => some greaterEqual
    | .and => some and | .or => some or | .nullish => some nullish
    | _ => none
  | _ => none

/-- How tightly a binary operator binds, from one to `maxPrecedence`. All group to the left. -/
def precedence : BinaryOp → Nat
  | nullish => 1
  | or => 2
  | and => 3
  | equal | notEqual | strictEqual | strictNotEqual => 4
  | less | greater | lessEqual | greaterEqual => 5
  | add | sub => 6
  | mul | div | mod => 7

/-- The tightest binding. -/
def maxPrecedence : Nat := 7

/-- Whether an operator joins truth values. -/
def isLogical : BinaryOp → Bool
  | and | or => true
  | _ => false

end BinaryOp

namespace UnaryOp

/-- The text of a unary operator. -/
def spelling : UnaryOp → String
  | not => Symbol.not.spelling
  | negate => Symbol.minus.spelling
  | plus => Symbol.plus.spelling
  | typeof_ => Keyword.typeof_.spelling

/-- The unary operator that a token stands for. -/
def ofKind? : Kind → Option UnaryOp
  | .symbol .not => some not
  | .symbol .minus => some negate
  | .symbol .plus => some plus
  | .keyword .typeof_ => some typeof_
  | _ => none

end UnaryOp

namespace UpdateOp

/-- The mark of an update operator. -/
def symbol : UpdateOp → Symbol
  | increment => .plusPlus
  | decrement => .minusMinus

/-- The update operator that a token stands for. -/
def ofKind? : Kind → Option UpdateOp
  | .symbol .plusPlus => some increment
  | .symbol .minusMinus => some decrement
  | _ => none

end UpdateOp

namespace AssignOp

/-- The mark of an assignment operator. -/
def symbol : AssignOp → Symbol
  | assign => .assign
  | addAssign => .plusAssign
  | subAssign => .minusAssign
  | mulAssign => .starAssign
  | divAssign => .slashAssign

/-- The assignment operator that a token stands for. -/
def ofKind? : Kind → Option AssignOp
  | .symbol .assign => some assign
  | .symbol .plusAssign => some addAssign
  | .symbol .minusAssign => some subAssign
  | .symbol .starAssign => some mulAssign
  | .symbol .slashAssign => some divAssign
  | _ => none

end AssignOp

namespace VariableKind

/-- The keyword that declares variables of a kind. -/
def keyword : VariableKind → Keyword
  | let_ => .let_
  | const_ => .const_
  | var_ => .var_

/-- The kind of variables that a token declares. -/
def ofKind? : Kind → Option VariableKind
  | .keyword .let_ => some let_
  | .keyword .const_ => some const_
  | .keyword .var_ => some var_
  | _ => none

end VariableKind

end MarkupScript
