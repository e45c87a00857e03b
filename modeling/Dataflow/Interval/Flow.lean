import Dataflow.Analysis.Basic
import Dataflow.Interval.Lattice

/-!
# Interval analysis of assignments

The rules for the right-hand side of an assignment, tried in order. Whatever a rule answers is
brought into the interval size.
-/

set_option autoImplicit false

namespace Dataflow.Interval

/-- The rules for right-hand sides. -/
inductive FlowRule where
  | constant
  | boolConstant
  | copy
  | constantFold
  | constantFoldUndefined
  | addConstant
  | addConstantUnknown
  | commutedAdd
  | subConstant
  | addUndefinedLow
  | addUndefinedHigh
  | addEmpty
  | add
  | mulUndefinedLow
  | mulUndefinedHigh
  | mulEmpty
  | mulNonNegative
  | unknown
deriving DecidableEq

/-- The name of a rule. -/
def FlowRule.name : FlowRule → String
  | constant => "Constant"
  | boolConstant => "BoolConstant"
  | copy => "Copy"
  | constantFold => "ConstantFold"
  | constantFoldUndefined => "ConstantFoldUndefined"
  | addConstant => "AddConstant"
  | addConstantUnknown => "AddConstantUnknown"
  | commutedAdd => "CommutedAdd"
  | subConstant => "SubConstant"
  | addUndefinedLow => "AddUndefinedLow"
  | addUndefinedHigh => "AddUndefinedHigh"
  | addEmpty => "AddEmpty"
  | add => "Add"
  | mulUndefinedLow => "MulUndefinedLow"
  | mulUndefinedHigh => "MulUndefinedHigh"
  | mulEmpty => "MulEmpty"
  | mulNonNegative => "MulNonNegative"
  | unknown => "Unknown"

/-- An operation on two constants. -/
def foldConstants (op : ArithOp) (c d : Int64) : Interval × FlowRule :=
  match op.evaluate c d with
  | some result => (constant result, .constantFold)
  | none => (top, .constantFoldUndefined)

/-- A variable plus a constant. -/
def addConstant (y : Interval) (c : Int64) : Interval × FlowRule :=
  match y.bounds? with
  | some (low, high) => (range (low.shift c) (high.shift c), .addConstant)
  | none => (top, .addConstantUnknown)

/-- A variable minus a constant: the sum with its negation, when that is a word. -/
def subConstant (y : Interval) (c : Int64) : Interval × FlowRule :=
  match Checked.neg c with
  | some negated => ((addConstant y negated).1, .subConstant)
  | none => (top, .unknown)

/-- A variable plus a variable. -/
def addVariables (y z : Interval) : Interval × FlowRule :=
  match y.bounds?, z.bounds? with
  | some (ly, hy), some (lz, hz) =>
    match ly.add? lz with
    | none => (top, .addUndefinedLow)
    | some low =>
      match hy.add? hz with
      | none => (top, .addUndefinedHigh)
      | some high => if high < low then (top, .addEmpty) else (int low high, .add)
  | _, _ => (top, .unknown)

/-- A variable times a variable: only products of intervals from zero up are tracked. -/
def mulVariables (y z : Interval) : Interval × FlowRule :=
  match y.bounds?, z.bounds? with
  | some (ly, hy), some (lz, hz) =>
    match ly.mul? lz with
    | none => (top, .mulUndefinedLow)
    | some low =>
      match hy.mul? hz with
      | none => (top, .mulUndefinedHigh)
      | some high =>
        if high < low then (top, .mulEmpty)
        else if [ly, hy, lz, hz].all Bound.isNonNegative then (int low high, .mulNonNegative)
        else (top, .unknown)
  | _, _ => (top, .unknown)

/-- The value of a right-hand side, before it is brought into the size. -/
def evaluate (size : IntervalSize) (e : Expr) (env : Env Interval) : Interval × FlowRule :=
  let value := env.lookup (lattice size)
  match e with
  | .int c => (constant c, .constant)
  | .bool b => (boolean b, .boolConstant)
  | .var y => (value y, .copy)
  | .arith (.int c) op (.int d) => foldConstants op c d
  | .arith (.var y) .add (.int c) => addConstant (value y) c
  | .arith (.int c) .add (.var y) => ((addConstant (value y) c).1, .commutedAdd)
  | .arith (.var y) .sub (.int c) => subConstant (value y) c
  | .arith (.var y) .add (.var z) => addVariables (value y) (value z)
  | .arith (.var y) .mul (.var z) => mulVariables (value y) (value z)
  | _ => (top, .unknown)

/-- The effect of an assignment. -/
def flow (size : IntervalSize) : Stmt → Env Interval → Except AnalysisError (Update Interval) :=
  assignmentFlow fun e env =>
    let result := evaluate size e env
    (normalize size result.1, result.2.name)

end Dataflow.Interval
