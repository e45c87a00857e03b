import Dataflow.Expr.Basic
import Dataflow.Token

/-!
# Unfinished expressions

While an expression is read, what has been read of it is a stack of frames, innermost first: prefix
operators and left operands that wait for an operand, open parentheses and open argument lists. An
operand takes the prefix operators before it at once. A left operand is joined to its right operand
when the next operator does not bind tighter, so operators of one precedence associate to the left.
-/

set_option autoImplicit false

namespace Dataflow

/-- Binary operators of every precedence. -/
inductive BinaryOp where
  | arith (op : ArithOp)
  | compare (op : CompareOp)
  | equality (op : EqualityOp)
  | logic (op : LogicOp)
deriving DecidableEq

namespace BinaryOp

/-- How tightly an operator binds, from `or` up to `*` and `/`. -/
def precedence : BinaryOp → Nat
  | logic .or => 0
  | logic .and => 1
  | equality _ => 2
  | compare _ => 3
  | arith .add => 4
  | arith .sub => 4
  | arith .mul => 5
  | arith .div => 5

/-- The tree of an operator and its operands. -/
def apply : BinaryOp → Expr → Expr → Expr
  | arith op, left, right => .arith left op right
  | compare op, left, right => .compare left op right
  | equality op, left, right => .equality left op right
  | logic op, left, right => .logic left op right

/-- The binary operator a token is. -/
def ofToken? : Token → Option BinaryOp
  | .keyword .orWord => some (logic .or)
  | .keyword .andWord => some (logic .and)
  | .symbol .equalEqual => some (equality .eq)
  | .symbol .notEqual => some (equality .ne)
  | .symbol .less => some (compare .lt)
  | .symbol .greater => some (compare .gt)
  | .symbol .lessEqual => some (compare .le)
  | .symbol .greaterEqual => some (compare .ge)
  | .symbol .plus => some (arith .add)
  | .symbol .minus => some (arith .sub)
  | .symbol .star => some (arith .mul)
  | .symbol .slash => some (arith .div)
  | _ => none

end BinaryOp

/-- Prefix operators. -/
inductive UnaryOp where
  | minus
  | bang
deriving DecidableEq

/-- The tree of a prefix operator and its operand: minus turns an integer constant into its
negation, and subtracts anything else from zero. -/
def UnaryOp.apply : UnaryOp → Expr → Expr
  | bang, operand => .not operand
  | minus, .int value =>
    match Checked.neg value with
    | some negated => .int negated
    | none => .arith (.int 0) .sub (.int value)
  | minus, operand => .arith (.int 0) .sub operand

/-- A part of an expression that waits for more. -/
inductive Frame where
  /-- A prefix operator before its operand. -/
  | unary (op : UnaryOp)
  /-- A left operand and its operator before the right operand. -/
  | binary (left : Expr) (op : BinaryOp)
  /-- An open parenthesis. -/
  | group
  /-- An open argument list with the arguments read so far. -/
  | call (name : String) (arguments : List Expr)
deriving DecidableEq

namespace Frame

/-- An operand takes the prefix operators before it. -/
def absorb : Expr → List Frame → Expr × List Frame
  | operand, .unary op :: frames => absorb (op.apply operand) frames
  | operand, frames => (operand, frames)

/-- An operand is joined to the left operands before it whose operators bind at least as tightly as
`precedence`. -/
def reduce (precedence : Nat) : Expr → List Frame → Expr × List Frame
  | operand, .binary left op :: frames =>
    if precedence ≤ op.precedence then reduce precedence (op.apply left operand) frames
    else (operand, .binary left op :: frames)
  | operand, frames => (operand, frames)

end Frame

end Dataflow
