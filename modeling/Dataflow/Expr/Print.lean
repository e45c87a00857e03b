import Dataflow.Expr.Basic

/-!
# Printed expressions

An operand is put in parentheses when it is a binary expression or a negative constant, so the
printed form shows the tree without any rule of precedence.
-/

set_option autoImplicit false

namespace Dataflow.Expr

/-- Trees that are put in parentheses where they are operands. -/
def isCompound : Expr → Bool
  | arith _ _ _ | compare _ _ _ | equality _ _ _ | logic _ _ _ => true
  | int value => decide (value < 0)
  | _ => false

/-- The text of `e` as an operand, given its own text. -/
def asOperand (e : Expr) (text : String) : String :=
  if e.isCompound then "(" ++ text ++ ")" else text

mutual

/-- The text of an expression. -/
def render : Expr → String
  | var name => name
  | int value => toString value.toInt
  | arith l o r => asOperand l (render l) ++ " " ++ o.symbol ++ " " ++ asOperand r (render r)
  | bool value => Text.truth value
  | not a => "!" ++ asOperand a (render a)
  | compare l o r => asOperand l (render l) ++ " " ++ o.symbol ++ " " ++ asOperand r (render r)
  | equality l o r => asOperand l (render l) ++ " " ++ o.symbol ++ " " ++ asOperand r (render r)
  | logic l o r => asOperand l (render l) ++ " " ++ o.symbol ++ " " ++ asOperand r (render r)
  | call name as => name ++ "(" ++ ", ".intercalate (renderAll as) ++ ")"

/-- The texts of a list of expressions. -/
def renderAll : List Expr → List String
  | [] => []
  | a :: as => render a :: renderAll as

end

end Dataflow.Expr
