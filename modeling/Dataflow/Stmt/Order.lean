import Dataflow.Expr.Order
import Dataflow.Stmt.Basic

/-!
# The order of statements

A total order on statements: first by kind, in the order of the constructors, then by the parts from
left to right, with the line first.
-/

set_option autoImplicit false

namespace Dataflow.Stmt

/-- The place of a statement's kind among the kinds. -/
def rank : Stmt → Nat
  | assign _ _ _ => 0
  | ifElse _ _ _ _ => 1
  | loop _ _ _ => 2
  | ret _ _ => 3

mutual

/-- The order of two statements. -/
def order : Stmt → Stmt → Ordering
  | assign n x e, assign n' x' e' =>
    (Ord.compare n n').then ((Ord.compare x x').then (e.order e'))
  | ifElse n c s t, ifElse n' c' s' t' =>
    (Ord.compare n n').then ((c.order c').then ((orderAll s s').then (orderAll t t')))
  | loop n c s, loop n' c' s' => (Ord.compare n n').then ((c.order c').then (orderAll s s'))
  | ret n e, ret n' e' => (Ord.compare n n').then (e.order e')
  | s, t => Ord.compare s.rank t.rank

/-- The order of two lists of statements. -/
def orderAll : List Stmt → List Stmt → Ordering
  | [], [] => .eq
  | [], _ :: _ => .lt
  | _ :: _, [] => .gt
  | s :: ss, t :: ts => (order s t).then (orderAll ss ts)

end

end Dataflow.Stmt
