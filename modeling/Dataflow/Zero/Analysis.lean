import Dataflow.Analysis.Basic
import Dataflow.Zero.Basic

/-!
# The zero analysis

The rules for the right-hand side of an assignment, tried in order; what a comparison of a variable with a
constant says about the variable; and the analysis made of both. The lattice is finite, so loop heads need
only join.
-/

set_option autoImplicit false

namespace Dataflow.Zero

/-! ## Assignments -/

/-- The rules for right-hand sides. -/
inductive FlowRule where
  | zeroConstant
  | nonZeroConstant
  | copy
  | constantFoldZero
  | constantFoldNonZero
  | constantFoldUndefined
  | addZeroVariables
  | addVariables
  | addZeroToZero
  | addNonZeroToZero
  | addZeroToNonZero
  | addConstant
  | commutedAdd
  | unknown
deriving DecidableEq

/-- The name of a rule. -/
def FlowRule.name : FlowRule → String
  | zeroConstant => "ZeroConstant"
  | nonZeroConstant => "NonZeroConstant"
  | copy => "Copy"
  | constantFoldZero => "ConstantFoldZero"
  | constantFoldNonZero => "ConstantFoldNonZero"
  | constantFoldUndefined => "ConstantFoldUndefined"
  | addZeroVariables => "AddZeroVariables"
  | addVariables => "AddVariables"
  | addZeroToZero => "AddZeroToZero"
  | addNonZeroToZero => "AddNonZeroToZero"
  | addZeroToNonZero => "AddZeroToNonZero"
  | addConstant => "AddConstant"
  | commutedAdd => "CommutedAdd"
  | unknown => "Unknown"

/-- A variable plus a constant. -/
def addConstant (y : Zero) (c : Int64) : Zero × FlowRule :=
  match y with
  | zero => if c = 0 then (zero, .addZeroToZero) else (nonzero, .addNonZeroToZero)
  | nonzero => if c = 0 then (nonzero, .addZeroToNonZero) else (unknown, .addConstant)
  | _ => (unknown, .addConstant)

/-- An operation on two constants. -/
def foldConstants (op : ArithOp) (c d : Int64) : Zero × FlowRule :=
  match op.evaluate c d with
  | some result =>
    if result = 0 then (zero, .constantFoldZero) else (nonzero, .constantFoldNonZero)
  | none => (unknown, .constantFoldUndefined)

/-- A variable plus a variable. -/
def addVariables : Zero → Zero → Zero × FlowRule
  | zero, zero => (zero, .addZeroVariables)
  | _, _ => (unknown, .addVariables)

/-- The value of a right-hand side. -/
def evaluate (e : Expr) (env : Env Zero) : Zero × FlowRule :=
  match e with
  | .int c => if c = 0 then (zero, .zeroConstant) else (nonzero, .nonZeroConstant)
  | .bool _ => (nonzero, .nonZeroConstant)
  | .var y => (env.lookup lattice y, .copy)
  | .arith (.int c) op (.int d) => foldConstants op c d
  | .arith (.var y) .add (.var z) => addVariables (env.lookup lattice y) (env.lookup lattice z)
  | .arith (.var y) .add (.int c) => addConstant (env.lookup lattice y) c
  | .arith (.int c) .add (.var y) => ((addConstant (env.lookup lattice y) c).1, .commutedAdd)
  | _ => (unknown, .unknown)

/-- The effect of an assignment. -/
def flow : Stmt → Env Zero → Except AnalysisError (Update Zero) :=
  assignmentFlow fun e env => ((evaluate e env).1, (evaluate e env).2.name)

/-! ## Conditions -/

/-- The rules for conditions. -/
inductive ConditionRule where
  | lessThanNonPositive
  | lessThan
  | greaterThanNonNegative
  | greaterThan
  | lessOrEqualNegative
  | lessOrEqual
  | greaterOrEqualPositive
  | greaterOrEqual
  | equalZero
  | equalNonZero
  | notEqualZero
  | notEqual
  | commuted
  | infeasible
  | identity
deriving DecidableEq

/-- The name of a rule. -/
def ConditionRule.name : ConditionRule → String
  | lessThanNonPositive => "LessThanNonPositive"
  | lessThan => "LessThan"
  | greaterThanNonNegative => "GreaterThanNonNegative"
  | greaterThan => "GreaterThan"
  | lessOrEqualNegative => "LessOrEqualNegative"
  | lessOrEqual => "LessOrEqual"
  | greaterOrEqualPositive => "GreaterOrEqualPositive"
  | greaterOrEqual => "GreaterOrEqual"
  | equalZero => "EqualZero"
  | equalNonZero => "EqualNonZero"
  | notEqualZero => "NotEqualZero"
  | notEqual => "NotEqual"
  | commuted => "Commuted"
  | infeasible => "Infeasible"
  | identity => "Identity"

/-- What an order comparison with a constant says about the compared value. -/
def compareConstant (op : CompareOp) (c : Int64) : Zero × ConditionRule :=
  match op with
  | .lt => if c ≤ 0 then (nonzero, .lessThanNonPositive) else (unknown, .lessThan)
  | .gt => if 0 ≤ c then (nonzero, .greaterThanNonNegative) else (unknown, .greaterThan)
  | .le => if c < 0 then (nonzero, .lessOrEqualNegative) else (unknown, .lessOrEqual)
  | .ge => if 0 < c then (nonzero, .greaterOrEqualPositive) else (unknown, .greaterOrEqual)

/-- What an equality comparison with a constant says about the compared value. -/
def equalConstant (op : EqualityOp) (c : Int64) : Zero × ConditionRule :=
  match op with
  | .eq => if c = 0 then (zero, .equalZero) else (nonzero, .equalNonZero)
  | .ne => if c = 0 then (nonzero, .notEqualZero) else (unknown, .notEqual)

/-- What a condition says about variables, when it can hold. -/
def conditionBindings (condition : Expr) : Option (Env Zero) × ConditionRule :=
  match condition with
  | .compare (.var y) op (.int c) =>
    let said := compareConstant op c
    (some (NameMap.ofList [(y, said.1)]), said.2)
  | .compare (.int c) op (.var y) =>
    (some (NameMap.ofList [(y, (compareConstant op.flip c).1)]), .commuted)
  | .equality (.var y) op (.int c) =>
    let said := equalConstant op c
    (some (NameMap.ofList [(y, said.1)]), said.2)
  | .equality (.int c) op (.var y) =>
    (some (NameMap.ofList [(y, (equalConstant op c).1)]), .commuted)
  | .bool false => (none, .infeasible)
  | _ => (some NameMap.empty, .identity)

/-- What a condition says about variables. -/
def narrow (condition : Expr) (_env : Env Zero) : Narrowing Zero :=
  let said := conditionBindings condition
  ⟨said.1, said.2.name⟩

/-! ## The analysis -/

/-- The analysis. -/
def analysis : Analysis Zero where
  lattice := lattice
  transfer := dispatch flow
  narrow := narrow
  widen := joinWidening lattice

/-- Its own settings. -/
def config : Config := { Config.standard with strategy := .never }

end Dataflow.Zero
