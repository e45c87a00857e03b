import Dataflow.Proofs.Interval.Soundness

/-!
# Sound transfers on all environments

A run only meets environments that its own rules made, with ends in order and within the size. The rules
do not need that: on any environment at all, with ends anywhere among the words and infinities and any
names left out, an assignment binds its target to an interval that covers the assigned value, and a
condition that holds leaves the store in the environment (`transfers_sound_on_environments`).
-/

set_option autoImplicit false

namespace Dataflow.Interval

open Concrete Analysis

variable {size : IntervalSize} {env : Env Interval} {σ : Store} {W : World} {calls after : List Call}

/-- What a condition leaves of an environment: the environment refined by what the condition says of
variables, and nothing when it cannot hold. -/
def assuming (size : IntervalSize) (condition : Expr) (env : Env Interval) : Option (Env Interval) :=
  (narrow size condition env).bindings.bind (env.refine? (lattice size))

/-- An edge with a condition lets through what its condition leaves. -/
theorem along_eq_assuming {label : Label} (conditional : label.isConditional = true)
    (env : Env Interval) : (analysis size).along label env = assuming size label.condition env := by
  rw [along, if_pos conditional]
  change _ = ((analysis size).narrow label.condition env).bindings.bind
    (env.refine? (analysis size).lattice)
  cases ((analysis size).narrow label.condition env).bindings with
  | none => rfl
  | some bindings => rfl

/-- The transfer of the analysis at an assignment binds what the flow binds. -/
theorem transfer_of_flow {line : Nat} {target : String} {value : Expr} {update : Update Interval}
    (bound : flow size (.assign line target value) env = .ok update) :
    (analysis size).transfer ⟨.assign line target value⟩ env =
      .ok ⟨update.bindings, "Assignment(" ++ update.rule ++ ")"⟩ := by
  simp only [analysis, dispatch, bound]

/-- The value that an assignment binds covers the value that it assigns. -/
theorem exists_flow_covering {value : Expr} {v : Value} (contains : Contains Covers env σ)
    (evaluated : eval W σ value calls = some (v, after)) (line : Nat) (target : String) :
    ∃ update a, flow size (.assign line target value) env = .ok update ∧
      update.bindings.get? target = some a ∧ Covers a v := by
  have covers : Covers (normalize size (evaluate size value env).1) v :=
    covers_normalize size (covers_evaluate contains evaluated)
  refine ⟨_, _, rfl, ?_, covers⟩
  exact (NameMap.get?_ofList_singleton target _ target).trans (if_pos rfl)

/-- An assignment leads from stores in the environment to stores in the updated environment. -/
theorem contains_updated_flow {value : Expr} {v : Value} (contains : Contains Covers env σ)
    (evaluated : eval W σ value calls = some (v, after)) {line : Nat} {target : String}
    {update : Update Interval} (bound : flow size (.assign line target value) env = .ok update) :
    Contains Covers (env.updated update.bindings) (σ.set target v) := by
  have executed : execute W (.assign line target value) σ calls = some (σ.set target v, after) := by
    rw [execute, evaluated, Option.map_some]
  have kept := (sound_analysis size).transfer (transfer_of_flow bound) contains executed
  exact kept

/-- A condition that holds leaves the store in the environment. -/
theorem admits_assuming {condition : Expr} (contains : Contains Covers env σ)
    (holds : eval W σ condition calls = some (.bool true, after)) :
    Admits Covers σ (assuming size condition env) := by
  have passes : Passes W ⟨condition, .whenTrue⟩ σ calls after := holds
  have through : (analysis size).along ⟨condition, .whenTrue⟩ env = assuming size condition env :=
    along_eq_assuming rfl env
  exact through ▸ (sound_analysis size).along contains passes

/-- **Assignments and conditions are sound on every environment.** For every size, every environment and
every store in it: an assignment whose right-hand side has a value binds its target to an interval that
covers the value, so the updated environment has the store after it; and a condition that holds is not
found impossible and keeps the store in the refined environment. That ends are in order is not asked for:
an environment with an interval whose ends cross has no store in it. -/
theorem transfers_sound_on_environments (size : IntervalSize) (env : Env Interval) (W : World)
    (σ : Store) (contains : Contains Covers env σ) (calls after : List Call) :
    (∀ line target value v, eval W σ value calls = some (v, after) →
      ∃ update a, flow size (.assign line target value) env = .ok update ∧
        update.bindings.get? target = some a ∧ Covers a v ∧
        Contains Covers (env.updated update.bindings) (σ.set target v)) ∧
    ∀ condition, eval W σ condition calls = some (.bool true, after) →
      ∃ refined, assuming size condition env = some refined ∧ Contains Covers refined σ := by
  constructor
  · intro line target value v evaluated
    obtain ⟨update, a, bound, here, covers⟩ := exists_flow_covering contains evaluated line target
    exact ⟨update, a, bound, here, covers, contains_updated_flow contains evaluated bound⟩
  · intro condition holds
    exact admits_assuming contains holds

/-- An environment with ends at the least and the greatest word, far outside of small sizes. -/
def outermost : Env Interval :=
  NameMap.ofList [("x", int (.finite Int64.maxValue) .posInf),
    ("y", int .negInf (.finite Int64.minValue))]

/-- The store in it, in which all other variables are the least word, too. -/
def extremes : Store := fun name => if name = "x" then .int Int64.maxValue else .int Int64.minValue

/-- At the ends of the words and with size three: `x - 1` is covered where it is bound to `z`, and
`y < x` leaves the store in the environment. -/
theorem outermost_transfers_sound :
    Contains Covers outermost extremes ∧
    (∃ update a, flow 3 (.assign 1 "z" (.arith (.var "x") .sub (.int 1))) outermost = .ok update ∧
      update.bindings.get? "z" = some a ∧ Covers a (.int (Int64.maxValue - 1)) ∧
      Contains Covers (outermost.updated update.bindings)
        (extremes.set "z" (.int (Int64.maxValue - 1)))) ∧
    ∃ refined, assuming 3 (.compare (.var "y") .lt (.var "x")) outermost = some refined ∧
      Contains Covers refined extremes := by
  have contains : Contains Covers outermost extremes := by
    apply contains_ofList
    simp [extremes, Covers, Bound.le_refl]
  obtain ⟨assigns, assumes⟩ :=
    transfers_sound_on_environments 3 outermost quiet extremes contains [] []
  exact ⟨contains, assigns 1 "z" _ _ (by decide +kernel), assumes _ (by decide +kernel)⟩

end Dataflow.Interval
