import Dataflow.FunctionDef
import Dataflow.Proofs.Concrete.Evaluation
import Dataflow.Graph.Basic
import Mathlib.Data.List.Chain
import Mathlib.Logic.Relation

/-!
# Executions of a body

An execution takes statements one at a time from the list of what is left to do. A branch puts the
chosen body in front of the rest, a loop whose condition holds puts its body in front of itself, and
a return drops everything. A state without a next state is finished, when nothing is left to do, or
stuck on an expression without a value.

Each state with something left to do is a `Visit` of the point of its first statement.
-/

set_option autoImplicit false

namespace Dataflow.Concrete

/-- A moment of an execution: the statements left to do, the store, and the calls made so far, the
latest first. -/
structure State where
  todo : List Stmt
  store : Store
  calls : List Call

/-- The state before a body is run. -/
def State.start (body : List Stmt) (σ : Store) : State := ⟨body, σ, []⟩

/-- One statement is executed. -/
inductive Step (W : World) : State → State → Prop
  | assign {line : Nat} {target : String} {value : Expr} {rest : List Stmt} {σ : Store}
      {calls after : List Call} {v : Value} :
      eval W σ value calls = some (v, after) →
      Step W ⟨.assign line target value :: rest, σ, calls⟩ ⟨rest, σ.set target v, after⟩
  | thenBranch {line : Nat} {condition : Expr} {thenBody elseBody rest : List Stmt} {σ : Store}
      {calls after : List Call} :
      eval W σ condition calls = some (.bool true, after) →
      Step W ⟨.ifElse line condition thenBody elseBody :: rest, σ, calls⟩
        ⟨thenBody ++ rest, σ, after⟩
  | elseBranch {line : Nat} {condition : Expr} {thenBody elseBody rest : List Stmt} {σ : Store}
      {calls after : List Call} :
      eval W σ condition calls = some (.bool false, after) →
      Step W ⟨.ifElse line condition thenBody elseBody :: rest, σ, calls⟩
        ⟨elseBody ++ rest, σ, after⟩
  | enterLoop {line : Nat} {condition : Expr} {body rest : List Stmt} {σ : Store}
      {calls after : List Call} :
      eval W σ condition calls = some (.bool true, after) →
      Step W ⟨.loop line condition body :: rest, σ, calls⟩
        ⟨body ++ .loop line condition body :: rest, σ, after⟩
  | leaveLoop {line : Nat} {condition : Expr} {body rest : List Stmt} {σ : Store}
      {calls after : List Call} :
      eval W σ condition calls = some (.bool false, after) →
      Step W ⟨.loop line condition body :: rest, σ, calls⟩ ⟨rest, σ, after⟩
  | ret {line : Nat} {value : Expr} {rest : List Stmt} {σ : Store} {calls after : List Call}
      {v : Value} :
      eval W σ value calls = some (v, after) →
      Step W ⟨.ret line value :: rest, σ, calls⟩ ⟨[], σ, after⟩

/-- States that an execution gets to. -/
abbrev Reaches (W : World) : State → State → Prop := Relation.ReflTransGen (Step W)

/-- A state is left by a step that leaves nothing to do. -/
def State.Finishes (W : World) (s : State) : Prop := ∃ t, Step W s t ∧ t.todo = []

/-- A state has something to do and no next state. -/
def State.Stuck (W : World) (s : State) : Prop := s.todo ≠ [] ∧ ∀ t, ¬ Step W s t

/-- The states of an execution of a body from a store, in order, up to any moment of it. -/
structure IsExecution (W : World) (body : List Stmt) (σ : Store) (states : List State) : Prop where
  start : ∀ s ∈ states.head?, s = .start body σ
  steps : states.IsChain (Step W)

/-- Control at a point of a graph. -/
structure Visit where
  point : Point
  store : Store
  calls : List Call

/-- The visit of a state with something left to do. -/
def State.visit? (s : State) : Option Visit :=
  s.todo.head?.map fun statement => ⟨⟨statement⟩, s.store, s.calls⟩

/-- The visits of the states of an execution. -/
def visits (states : List State) : List Visit := states.filterMap State.visit?

/-- Nothing follows a state with nothing left to do. -/
theorem not_step_of_finished {W : World} {s t : State} (finished : s.todo = []) : ¬ Step W s t := by
  intro step
  cases step <;> cases finished

/-- The visit of a state is its first statement with its store and its calls. -/
theorem visit?_eq_some_iff {s : State} {v : Visit} :
    s.visit? = some v ↔ ∃ rest, s = ⟨v.point.statement :: rest, v.store, v.calls⟩ := by
  obtain ⟨todo, store, calls⟩ := s
  obtain ⟨⟨statement⟩, store', calls'⟩ := v
  cases todo with
  | nil => simp [State.visit?]
  | cons first rest => simp [State.visit?]

/-- A state without a visit has nothing left to do. -/
theorem visit?_eq_none_iff {s : State} : s.visit? = none ↔ s.todo = [] := by
  obtain ⟨todo, store, calls⟩ := s
  cases todo with
  | nil => simp [State.visit?]
  | cons first rest => simp [State.visit?]

/-- What the statement at a point does to the store. Conditions are left to the edges out of the
point. -/
def execute (W : World) : Stmt → Store → List Call → Option (Store × List Call)
  | .assign _ target value, σ, calls =>
    (eval W σ value calls).map fun result => (σ.set target result.1, result.2)
  | .ret _ value, σ, calls => (eval W σ value calls).map fun result => (σ, result.2)
  | _, σ, calls => some (σ, calls)

/-- A step leaves the store that its statement makes. -/
theorem execute_of_step {W : World} {s : Stmt} {rest : List Stmt} {σ : Store} {calls : List Call}
    {t : State} (step : Step W ⟨s :: rest, σ, calls⟩ t) :
    ∃ after, execute W s σ calls = some (t.store, after) := by
  cases step with
  | assign value =>
    rw [execute, value]
    exact ⟨_, rfl⟩
  | ret value =>
    rw [execute, value]
    exact ⟨_, rfl⟩
  | thenBranch _ | elseBranch _ | enterLoop _ | leaveLoop _ => exact ⟨calls, rfl⟩

/-! ## A counting loop

A function to show statements about executions at: its loop has a branch with an empty side, so control
goes back to the loop from the branch and from the assignment in it.
-/

/-- The loop: while `x < n`, one is added to `x` unless `x > 3`. -/
def countLoop : Stmt :=
  .loop 3 (.compare (.var "x") .lt (.var "n"))
    [.ifElse 4 (.compare (.var "x") .gt (.int 3)) []
      [.assign 5 "x" (.arith (.var "x") .add (.int 1))]]

/-- The body: counting from zero. -/
def countBody : List Stmt := [.assign 2 "x" (.int 0), countLoop, .ret 7 (.var "x")]

/-- The function. -/
def countUp : FunctionDef := .make 1 "countUp" ["n"] countBody none

/-- A world in which calls answer zero. -/
def quiet : World := ⟨true, fun _ => .int 0⟩

/-- The store in which every variable is one. -/
def ones : Store := fun _ => .int 1

/-- With `n` being one, control comes back to the loop with `x` being one. -/
theorem reaches_countLoop : Reaches quiet (.start countBody ones)
    ⟨countLoop :: [.ret 7 (.var "x")], (ones.set "x" (.int 0)).set "x" (.int 1), []⟩ := by
  refine .head (.assign rfl) ?_
  refine .head (.enterLoop rfl) ?_
  refine .head (.elseBranch rfl) ?_
  exact .single (.assign rfl)

end Dataflow.Concrete
