import Dataflow.Zero.Analysis
import Dataflow.Proofs.Analysis.Soundness

/-!
# The zero analysis is sound

`Zero.Covers` says which values each element of the lattice stands for. Every rule of the analysis
respects this meaning, rule by rule over right-hand sides and conditions, so its results describe
every execution of every function (`zero_results_describe_executions`).

Booleans count as not zero. An addition rule may still answer `nonzero` for a variable that holds a
boolean, because the addition then has no value.
-/

set_option autoImplicit false

namespace Dataflow.Zero

open Concrete Analysis

/-- The values that an element stands for: `nonzero` has the other integers and the booleans. -/
def Covers : Zero → Value → Prop
  | bottom, _ => False
  | zero, v => v = .int 0
  | nonzero, v => v ≠ .int 0
  | unknown, _ => True

/-! ## The lattice -/

theorem covers_join_left {a b : Zero} {v : Value} (covers : Covers a v) : Covers (a.join b) v := by
  cases a <;> cases b <;> simp_all [join, Covers]

theorem covers_join_right {a b : Zero} {v : Value} (covers : Covers b v) : Covers (a.join b) v := by
  cases a <;> cases b <;> simp_all [join, Covers]

/-- A value covered by two elements is covered by their meet; zero and nonzero share none. -/
theorem covers_meet {a b : Zero} {v : Value} (left : Covers a v) (right : Covers b v) :
    Covers (a.meet b) v := by
  cases a <;> cases b <;> simp_all [meet, Covers]

/-! ## Right-hand sides -/

/-- An integer is covered by zero or by nonzero, depending on whether it is zero. -/
theorem covers_sign {rule rule' : FlowRule} (c : Int64) :
    Covers (if c = 0 then (zero, rule) else (nonzero, rule')).1 (.int c) := by
  split
  · next same => exact congrArg Value.int same
  · next other => exact fun same => other (Value.int.inj same)

theorem add_zero_left (c : Int64) : Checked.add 0 c = some c := by
  simp [Checked.add, Checked.ofInt?_eq_some_iff]

theorem add_zero_right (c : Int64) : Checked.add c 0 = some c := by
  simp [Checked.add, Checked.ofInt?_eq_some_iff]

variable {env : Env Zero} {σ : Store}

/-- The sum of a covered value and a constant. -/
theorem covers_addConstant {y : Zero} {m c r : Int64} (covers : Covers y (.int m))
    (sum : Checked.add m c = some r) : Covers (addConstant y c).1 (.int r) := by
  cases y with
  | bottom => exact trivial
  | unknown => exact trivial
  | zero =>
    -- The sum is the constant itself.
    cases Value.int.inj covers
    cases Option.some.inj ((add_zero_left c).symm.trans sum)
    exact covers_sign c
  | nonzero =>
    rw [addConstant]
    split
    · next same =>
      -- Adding zero keeps the value, and so that it is not zero.
      subst same
      cases Option.some.inj ((add_zero_right m).symm.trans sum)
      exact covers
    · exact trivial

/-- The sum of two covered values. -/
theorem covers_addVariables {y z : Zero} {m n r : Int64} (left : Covers y (.int m))
    (right : Covers z (.int n)) (sum : Checked.add m n = some r) :
    Covers (addVariables y z).1 (.int r) := by
  unfold addVariables
  split
  · cases Value.int.inj left
    cases Value.int.inj right
    cases Option.some.inj ((add_zero_left 0).symm.trans sum)
    exact rfl
  · exact trivial

/-- A folded operation. -/
theorem covers_foldConstants {op : ArithOp} {c d r : Int64} (result : op.evaluate c d = some r) :
    Covers (foldConstants op c d).1 (.int r) := by
  rw [foldConstants, result]
  exact covers_sign r

/-- **The rules for right-hand sides are sound.** -/
theorem covers_evaluate {W : World} {e : Expr} {v : Value} {calls after : List Call}
    (contains : Contains Covers env σ) (evaluated : eval W σ e calls = some (v, after)) :
    Covers (evaluate e env).1 v := by
  have value : ∀ name, Covers (env.lookup lattice name) (σ name) :=
    contains.lookup fun _ => trivial
  unfold evaluate
  split
  · cases evaluated
    exact covers_sign _
  · cases evaluated
    exact Value.noConfusion
  · cases evaluated
    exact value _
  · obtain ⟨m, mid, n, r, left, right, result, rfl⟩ := eval_arith_iff.mp evaluated
    cases left
    cases right
    exact covers_foldConstants result
  · next y z =>
    obtain ⟨m, mid, n, r, left, right, sum, rfl⟩ := eval_arith_iff.mp evaluated
    have first := (eval_var_iff.mp left).1
    have second := (eval_var_iff.mp right).1
    exact covers_addVariables (first ▸ value y) (second ▸ value z) sum
  · next y c =>
    obtain ⟨m, mid, n, r, left, right, sum, rfl⟩ := eval_arith_iff.mp evaluated
    have first := (eval_var_iff.mp left).1
    cases right
    exact covers_addConstant (first ▸ value y) sum
  · next c y =>
    obtain ⟨m, mid, n, r, left, right, sum, rfl⟩ := eval_arith_iff.mp evaluated
    cases left
    have second := (eval_var_iff.mp right).1
    rw [ArithOp.evaluate, Checked.add, Int.add_comm] at sum
    exact covers_addConstant (second ▸ value y) sum
  · exact trivial

/-! ## Conditions -/

/-- A value that cannot be zero under a condition is covered when nonzero is said under it only. -/
theorem covers_nonzero_if {P : Prop} [Decidable P] {rule rule' : ConditionRule} {v : Value}
    (other : P → v ≠ .int 0) :
    Covers (if P then (nonzero, rule) else (unknown, rule')).1 v := by
  split
  · next sign => exact other sign
  · exact trivial

/-- An integer that compares with a constant is covered by what is said about it. -/
theorem covers_compareConstant {op : CompareOp} {n c : Int64} (holds : op.holds n c = true) :
    Covers (compareConstant op c).1 (.int n) := by
  cases op <;> rw [CompareOp.holds, decide_eq_true_eq] at holds
  all_goals
    refine covers_nonzero_if fun sign same => ?_
    cases same
  case lt => exact Int64.not_lt.mpr sign holds
  case gt => exact Int64.not_lt.mpr sign holds
  case le => exact Int64.not_le.mpr sign holds
  case ge => exact Int64.not_le.mpr sign holds

/-- A value that compares with a constant is covered by what is said about it. -/
theorem covers_equalConstant {op : EqualityOp} {v : Value} {c : Int64}
    (holds : agreement op v (.int c) = true) : Covers (equalConstant op c).1 v := by
  cases op <;> by_cases same : c = 0 <;> simp_all [equalConstant, agreement, Covers]

/-- **What a condition that holds says about variables is true of them.** -/
theorem exists_conditionBindings {W : World} {condition : Expr} {calls after : List Call}
    (holds : eval W σ condition calls = some (.bool true, after)) :
    ∃ bindings, (conditionBindings condition).1 = some bindings ∧ Contains Covers bindings σ := by
  unfold conditionBindings
  split
  · next y op c =>
    obtain ⟨m, mid, n, left, right, compares⟩ := eval_compare_true_iff.mp holds
    cases right
    refine ⟨_, rfl, contains_ofList ?_⟩
    simp [(eval_var_iff.mp left).1, covers_compareConstant compares]
  · next c op y =>
    obtain ⟨m, mid, n, left, right, compares⟩ := eval_compare_true_iff.mp holds
    cases left
    refine ⟨_, rfl, contains_ofList ?_⟩
    rw [← holds_flip] at compares
    simp [(eval_var_iff.mp right).1, covers_compareConstant compares]
  · next y op c =>
    obtain ⟨a, mid, b, left, right, same⟩ := eval_equality_iff.mp holds
    cases right
    refine ⟨_, rfl, contains_ofList ?_⟩
    simp [(eval_var_iff.mp left).1, covers_equalConstant (Value.bool.inj same).symm]
  · next c op y =>
    obtain ⟨a, mid, b, left, right, same⟩ := eval_equality_iff.mp holds
    cases left
    refine ⟨_, rfl, contains_ofList ?_⟩
    rw [agreement_comm] at same
    simp [(eval_var_iff.mp right).1, covers_equalConstant (Value.bool.inj same).symm]
  · simp [eval] at holds
  · refine ⟨_, rfl, fun name a found => ?_⟩
    rw [NameMap.get?_empty] at found
    cases found

/-- What a condition says is about variables that it reads. -/
theorem mem_reads_of_conditionBindings {condition : Expr} {bindings : Env Zero}
    (said : (conditionBindings condition).1 = some bindings) (name : String)
    (bound : (bindings.get? name).isSome = true) : name ∈ condition.reads := by
  unfold conditionBindings at said
  split at said <;> cases said <;>
    simp [NameMap.get?_ofList_singleton, Expr.reads, Option.isSome_iff_exists] at bound ⊢ <;>
    exact bound

/-- The transfer of the analysis goes by its rules for right-hand sides. -/
theorem transfer_analysis : analysis.transfer =
    dispatch (assignmentFlow fun e env => ((evaluate e env).1, (evaluate e env).2.name)) :=
  rfl

/-- The parts of the zero analysis respect the meaning of its values. -/
theorem sound_analysis : analysis.Sound Covers where
  names := by
    refine ⟨fun transferred => ?_, mem_reads_of_conditionBindings⟩
    rw [transfer_analysis] at transferred
    exact mem_mentions_of_dispatch transferred
  top := fun _ => trivial
  bottom := fun _ => id
  join_left := covers_join_left
  join_right := covers_join_right
  meet := covers_meet
  widen := covers_join_right
  transfer := by
    intro W p env update σ σ' calls after transferred contains executed
    rw [transfer_analysis] at transferred
    refine contains_of_dispatch ?_ transferred contains executed
    exact fun evaluated => covers_evaluate contains evaluated
  narrow := fun _ holds => exists_conditionBindings holds

/-- **The zero analysis is sound.** Where an execution of a function arrives at a statement with some
store, the result has an input at its point that describes the store and an output that describes the
store after it. So a point without an output is never arrived at. -/
theorem zero_results_describe_executions (config : Config) (line : Nat) (called : String)
    (parameters : List String) (body : List Stmt) (source : Option String) (result : Result Zero)
    (ran : analysis.run config (.make line called parameters body source) = .ok result)
    (W : World) (start : Store) (s : Stmt) (rest : List Stmt) (σ : Store) (calls : List Call)
    (reached : Reaches W (.start body start) ⟨s :: rest, σ, calls⟩) :
    ∃ input output, result.inputs.get? ⟨s⟩ = some input ∧
      Describes Covers (FunctionDef.variablesOf parameters body).toList input σ ∧
      result.outputs.get? ⟨s⟩ = some output ∧
      ∀ t, Concrete.Step W ⟨s :: rest, σ, calls⟩ t →
        Describes Covers (FunctionDef.variablesOf parameters body).toList output t.store :=
  sound_analysis.result ran reached

/-- The counting loop: when control comes back to it with `x` being one, the input of the loop describes
that store. -/
theorem countLoop_zero_describes : ∃ result input,
    analysis.run config countUp = .ok result ∧ result.inputs.get? ⟨countLoop⟩ = some input ∧
    Describes Covers (FunctionDef.variablesOf ["n"] countBody).toList input
      ((ones.set "x" (.int 0)).set "x" (.int 1)) := by
  obtain ⟨result, ran⟩ : ∃ result, analysis.run config countUp = .ok result :=
    exists_result_of_isOk (by decide +kernel)
  obtain ⟨input, _, stored, described, -⟩ :=
    zero_results_describe_executions config 1 "countUp" ["n"] countBody none result ran quiet ones
      countLoop _ _ _ reaches_countLoop
  exact ⟨result, input, ran, stored, described⟩

end Dataflow.Zero
