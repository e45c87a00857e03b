import Dataflow.Expr.Basic

/-!
# The order of expressions

A total order on trees: first by kind of node, in the order of the constructors, then by the parts
from left to right. Names are compared by code points and lists of arguments lexicographically.
-/

set_option autoImplicit false

namespace Dataflow

/-- The place of an operator in its family. -/
def ArithOp.rank : ArithOp → Nat
  | add => 0
  | sub => 1
  | mul => 2
  | div => 3

/-- The place of an operator in its family. -/
def CompareOp.rank : CompareOp → Nat
  | lt => 0
  | gt => 1
  | le => 2
  | ge => 3

/-- The place of an operator in its family. -/
def EqualityOp.rank : EqualityOp → Nat
  | eq => 0
  | ne => 1

/-- The place of a connective in its family. -/
def LogicOp.rank : LogicOp → Nat
  | and => 0
  | or => 1

namespace Expr

/-- The place of a tree's kind among the kinds. -/
def rank : Expr → Nat
  | var _ => 0
  | int _ => 1
  | arith _ _ _ => 2
  | bool _ => 3
  | not _ => 4
  | compare _ _ _ => 5
  | equality _ _ _ => 6
  | logic _ _ _ => 7
  | call _ _ => 8

mutual

/-- The order of two trees. -/
def order : Expr → Expr → Ordering
  | var a, var b => Ord.compare a b
  | int a, int b => Ord.compare a.toInt b.toInt
  | arith l o r, arith l' o' r' =>
    (order l l').then ((Ord.compare o.rank o'.rank).then (order r r'))
  | bool a, bool b => Ord.compare a b
  | not a, not b => order a b
  | compare l o r, compare l' o' r' =>
    (order l l').then ((Ord.compare o.rank o'.rank).then (order r r'))
  | equality l o r, equality l' o' r' =>
    (order l l').then ((Ord.compare o.rank o'.rank).then (order r r'))
  | logic l o r, logic l' o' r' =>
    (order l l').then ((Ord.compare o.rank o'.rank).then (order r r'))
  | call f as, call g bs => (Ord.compare f g).then (orderAll as bs)
  | a, b => Ord.compare a.rank b.rank

/-- The order of two lists of trees. -/
def orderAll : List Expr → List Expr → Ordering
  | [], [] => .eq
  | [], _ :: _ => .lt
  | _ :: _, [] => .gt
  | a :: as, b :: bs => (order a b).then (orderAll as bs)

end

end Expr

end Dataflow
