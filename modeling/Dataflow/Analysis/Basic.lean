import Dataflow.Env
import Dataflow.Graph.Basic

/-!
# Analyses

An analysis is a lattice of abstract values with three functions: the transfer at a point, the
narrowing along a conditional edge and the widening of two values. Each function also names the rule
it applied. All analyses share `dispatch`: assignments go to the rules for their right-hand
side and every other statement passes its input through, since its effect is on its outgoing edges.
-/

set_option autoImplicit false

namespace Dataflow

/-- When a revisited loop head widens instead of joining. -/
inductive Strategy where
  | never
  | loopHeads
  /-- Only after that many revisits of the loop head. -/
  | delayed (revisits : Nat)
deriving DecidableEq

/-- Whether a revisit, counted from one at each loop head, widens. -/
def Strategy.widens : Strategy → Nat → Bool
  | never, _ => false
  | loopHeads, _ => true
  | delayed revisits, revisit => decide (revisits < revisit)

/-- The settings of a run. -/
structure Config where
  /-- The number of visits after which a run is given up. -/
  maxIterations : Nat
  strategy : Strategy
  /-- Whether the applied rules are recorded. -/
  recordSteps : Bool
deriving DecidableEq

/-- The standard settings. -/
def Config.standard : Config := ⟨1000, .loopHeads, false⟩

/-- Why a run has no result. -/
inductive AnalysisError where
  /-- A statement has no transfer rule. -/
  | unsupportedStatement (line : Nat) (header : String)
  /-- The environments were not stable within the allowed visits. -/
  | iterationLimit (limit : Nat)
deriving DecidableEq

namespace AnalysisError

/-- The message. -/
def message : AnalysisError → String
  | unsupportedStatement line header =>
    "no transfer rule for statement at line " ++ toString line ++ ": " ++ header
  | iterationLimit limit => "fixpoint not reached within " ++ toString limit ++ " iterations"

/-- Errors that other settings could avoid. -/
def isConfiguration : AnalysisError → Bool
  | unsupportedStatement _ _ => false
  | iterationLimit _ => true

end AnalysisError

/-- The new values of some variables and the rule that gave them. -/
structure Update (α : Type) where
  bindings : Env α
  rule : String

/-- What a condition says about some variables, or that it cannot hold, and the rule that said so. -/
structure Narrowing (α : Type) where
  bindings : Option (Env α)
  rule : String

/-- An analysis over abstract values of type `α`. -/
structure Analysis (α : Type) where
  lattice : ValueLattice α
  /-- The effect of the statement at a point. -/
  transfer : Point → Env α → Except AnalysisError (Update α)
  /-- What the condition of an edge says about variables. -/
  narrow : Expr → Env α → Narrowing α
  /-- The last and the new value of a variable at a loop head, combined. -/
  widen : α → α → α × String

/-- The effect of an assignment by the rules for its right-hand side; other statements have none. -/
def assignmentFlow {α : Type} (evaluate : Expr → Env α → α × String) (s : Stmt) (env : Env α) :
    Except AnalysisError (Update α) :=
  match s with
  | .assign _ target value =>
    let result := evaluate value env
    .ok ⟨NameMap.ofList [(target, result.1)], result.2⟩
  | _ => .error (.unsupportedStatement s.line s.header)

/-- The effect of any statement: assignments by a flow function, nothing for the others. -/
def dispatch {α : Type} (flow : Stmt → Env α → Except AnalysisError (Update α)) (p : Point)
    (env : Env α) : Except AnalysisError (Update α) :=
  match p.statement with
  | .assign line target value =>
    match flow (.assign line target value) env with
    | .ok update => .ok ⟨update.bindings, "Assignment(" ++ update.rule ++ ")"⟩
    | .error cause => .error cause
  | _ => .ok ⟨NameMap.empty, "Passthrough"⟩

/-- Widening that only joins. -/
def joinWidening {α : Type} (L : ValueLattice α) (last new : α) : α × String :=
  (L.join last new, "Join")

end Dataflow
