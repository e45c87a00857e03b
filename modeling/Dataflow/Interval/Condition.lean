import Dataflow.Analysis.Basic
import Dataflow.Interval.Lattice

/-!
# Interval analysis of conditions

What a comparison says about the compared variables. Whatever a rule answers is brought into the
interval size.
-/

set_option autoImplicit false

namespace Dataflow.Interval

/-- The rules for conditions. -/
inductive ConditionRule where
  | lessThan
  | greaterThan
  | lessOrEqual
  | greaterOrEqual
  | equal
  | commuted
  | lessThanVariable
  | greaterThanVariable
  | lessOrEqualVariable
  | greaterOrEqualVariable
  | equalFromLeft
  | equalFromRight
  | infeasible
  | identity
deriving DecidableEq

/-- The name of a rule. -/
def ConditionRule.name : ConditionRule → String
  | lessThan => "LessThan"
  | greaterThan => "GreaterThan"
  | lessOrEqual => "LessOrEqual"
  | greaterOrEqual => "GreaterOrEqual"
  | equal => "Equal"
  | commuted => "Commuted"
  | lessThanVariable => "LessThanVariable"
  | greaterThanVariable => "GreaterThanVariable"
  | lessOrEqualVariable => "LessOrEqualVariable"
  | greaterOrEqualVariable => "GreaterOrEqualVariable"
  | equalFromLeft => "EqualFromLeft"
  | equalFromRight => "EqualFromRight"
  | infeasible => "Infeasible"
  | identity => "Identity"

/-- What a condition says about variables, when it can hold, and the rule that said so. -/
abbrev Said := Option (Env Interval) × ConditionRule

/-- Nothing is said. -/
def nothing : Said := (some NameMap.empty, .identity)

/-- Values for some variables, brought into the size; of two for one variable the later counts. -/
def bind (size : IntervalSize) (bindings : List (String × Interval)) : Option (Env Interval) :=
  some (NameMap.ofList (bindings.map fun binding => (binding.1, normalize size binding.2)))

/-- The integers that compare with a constant. -/
def comparedTo (op : CompareOp) (c : Int64) : Interval × ConditionRule :=
  match op with
  | .lt => (range .negInf ((Bound.finite c).shift (-1)), .lessThan)
  | .gt => (range ((Bound.finite c).shift 1) .posInf, .greaterThan)
  | .le => (range .negInf (.finite c), .lessOrEqual)
  | .ge => (range (.finite c) .posInf, .greaterOrEqual)

/-- The integers that can compare with some integer of another interval, for the left and the right
side. -/
def comparedSides (op : CompareOp) (ly hy lx hx : Bound) :
    Interval × Interval × ConditionRule :=
  match op with
  | .lt => (range .negInf (hx.shift (-1)), range (ly.shift 1) .posInf, .lessThanVariable)
  | .gt => (range (lx.shift 1) .posInf, range .negInf (hy.shift (-1)), .greaterThanVariable)
  | .le => (range .negInf hx, range ly .posInf, .lessOrEqualVariable)
  | .ge => (range lx .posInf, range .negInf hy, .greaterOrEqualVariable)

/-- An order comparison of two variables. -/
def compareVariables (size : IntervalSize) (y : String) (op : CompareOp) (x : String)
    (env : Env Interval) : Said :=
  match (env.lookup (lattice size) y).bounds?, (env.lookup (lattice size) x).bounds? with
  | some (ly, hy), some (lx, hx) =>
    let sides := comparedSides op ly hy lx hx
    (bind size [(y, sides.1), (x, sides.2.1)], sides.2.2)
  | _, _ => nothing

/-- Equality of two variables: a side without values takes the value of the other. -/
def equalVariables (size : IntervalSize) (y x : String) (env : Env Interval) : Said :=
  match env.lookup (lattice size) y, env.lookup (lattice size) x with
  | bottom, bottom => nothing
  | value, bottom => (bind size [(y, value), (x, value)], .equalFromLeft)
  | bottom, value => (bind size [(y, value), (x, value)], .equalFromRight)
  | _, _ => nothing

/-- What a condition says about variables. -/
def conditionBindings (size : IntervalSize) (condition : Expr) (env : Env Interval) : Said :=
  match condition with
  | .compare (.var y) op (.int c) =>
    let said := comparedTo op c
    (bind size [(y, said.1)], said.2)
  | .compare (.int c) op (.var y) => (bind size [(y, (comparedTo op.flip c).1)], .commuted)
  | .compare (.var y) op (.var x) => compareVariables size y op x env
  | .equality (.var y) .eq (.int c) => (bind size [(y, constant c)], .equal)
  | .equality (.int c) .eq (.var y) => (bind size [(y, constant c)], .commuted)
  | .equality (.var y) .eq (.var x) => equalVariables size y x env
  | .bool false => (none, .infeasible)
  | _ => nothing

/-- What a condition says about variables, with the name of the rule. -/
def narrow (size : IntervalSize) (condition : Expr) (env : Env Interval) : Narrowing Interval :=
  let said := conditionBindings size condition env
  ⟨said.1, said.2.name⟩

end Dataflow.Interval
