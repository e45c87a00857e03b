import Dataflow.Proofs.Analysis.Names
import Dataflow.Proofs.Concrete.Evaluation

/-!
# Negation is the exact complement

An expression has a Boolean value exactly when its negation has the other one, it reads the same
variables and it makes the same calls (`negate_is_exact_complement`). Negating twice need not give the
expression back: `!!b` becomes `!b` and then `b`. What comes back is the Boolean value.

The calls are compared in two ways. The calls that stand in an expression are listed with their arguments
(`Expr.callSites`), and the list is the same for the negation. The calls that an evaluation makes are at
these places, in order (`calledAt_eval`); two evaluations that end in opposite Boolean values have made
the same ones, with the same arguments.
-/

set_option autoImplicit false

namespace Dataflow

/-! ## The calls in an expression -/

namespace Expr

mutual

/-- The calls in an expression with their arguments, in the order of evaluation. -/
def callSites : Expr → List (String × List Expr)
  | var _ => []
  | int _ => []
  | arith l _ r => callSites l ++ callSites r
  | bool _ => []
  | not a => callSites a
  | compare l _ r => callSites l ++ callSites r
  | equality l _ r => callSites l ++ callSites r
  | logic l _ r => callSites l ++ callSites r
  | call name arguments => callSitesIn arguments ++ [(name, arguments)]

/-- The calls in a list of expressions. -/
def callSitesIn : List Expr → List (String × List Expr)
  | [] => []
  | e :: es => callSites e ++ callSitesIn es

end

/-- Negation has the same calls in it. -/
theorem callSites_negate : ∀ e : Expr, e.negate.callSites = e.callSites
  | var _ | int _ | arith _ _ _ | bool _ | not _ | compare _ _ _ | equality _ _ _ | call _ _ => by
    simp [negate, callSites]
  | logic l _ r => by simp [negate, callSites, callSites_negate l, callSites_negate r]

/-- Negation reads the same set of variables. -/
theorem variableSet_negate (e : Expr) : e.negate.variableSet = e.variableSet := by
  rw [variableSet, reads_negate, variableSet]

end Expr

namespace Concrete

/-! ## The calls of an evaluation -/

/-- The calls made from one moment to another are at the listed places, in order. A connective that
skips its right operand leaves places out; otherwise there is one call for each. -/
def CalledAt (W : World) (sites : List (String × List Expr)) (before after : List Call) : Prop :=
  ∃ made : List Call, after = made.reverse ++ before ∧
    (made.map (·.name)).Sublist (sites.map (·.1)) ∧
    (W.shortCircuit = false → made.map (·.name) = sites.map (·.1))

section CalledAt

variable {W : World} {sites more : List (String × List Expr)} {before mid after : List Call}

theorem CalledAt.nothing : CalledAt W [] before before :=
  ⟨[], rfl, .slnil, fun _ => rfl⟩

theorem CalledAt.append (first : CalledAt W sites before mid) (second : CalledAt W more mid after) :
    CalledAt W (sites ++ more) before after := by
  obtain ⟨made, rfl, listed, all⟩ := first
  obtain ⟨made', rfl, listed', all'⟩ := second
  refine ⟨made ++ made', by simp, ?_, fun strict => ?_⟩
  · simpa using listed.append listed'
  · simp [all strict, all' strict]

/-- Where operands may be skipped, places may be left out. -/
theorem CalledAt.skip (first : CalledAt W sites before after) (short : W.shortCircuit = true) :
    CalledAt W (sites ++ more) before after := by
  obtain ⟨made, rfl, listed, -⟩ := first
  refine ⟨made, rfl, ?_, fun strict => ?_⟩
  · simpa using listed.trans (List.sublist_append_left _ _)
  · cases short.symm.trans strict

theorem CalledAt.call {name : String} {arguments : List Expr} (values : List Value) :
    CalledAt W [(name, arguments)] before (⟨name, values⟩ :: before) :=
  ⟨[⟨name, values⟩], rfl, .refl _, fun _ => rfl⟩

end CalledAt

mutual

/-- **An evaluation makes its calls at the places of calls in the expression.** -/
theorem calledAt_eval (W : World) (σ : Store) : ∀ (e : Expr) {calls after : List Call} {v : Value},
    eval W σ e calls = some (v, after) → CalledAt W e.callSites calls after
  | .var _, _, _, _, value | .int _, _, _, _, value | .bool _, _, _, _, value => by
    cases value
    exact .nothing
  | .arith l op r, calls, after, v, value => by
    obtain ⟨m, mid, n, result, left, right, -⟩ := eval_arith_iff.mp value
    exact (calledAt_eval W σ l left).append (calledAt_eval W σ r right)
  | .not a, calls, after, v, value => by
    simp only [eval, Option.bind_eq_some_iff, Option.map_eq_some_iff, Prod.exists] at value
    obtain ⟨x, mid, operand, y, -, same⟩ := value
    cases same
    exact calledAt_eval W σ a operand
  | .compare l op r, calls, after, v, value => by
    obtain ⟨a, mid, b, left, right, -⟩ := eval_compare_iff.mp value
    exact (calledAt_eval W σ l left).append (calledAt_eval W σ r right)
  | .equality l op r, calls, after, v, value => by
    obtain ⟨a, mid, b, left, right, -⟩ := eval_equality_iff.mp value
    exact (calledAt_eval W σ l left).append (calledAt_eval W σ r right)
  | .logic l op r, calls, after, v, value => by
    simp only [eval, Option.bind_eq_some_iff, Prod.exists] at value
    obtain ⟨a, mid, left, rest⟩ := value
    split at rest
    · next skips =>
      -- The left operand decides, so the calls of the right one are left out.
      cases rest
      exact (calledAt_eval W σ l left).skip skips.1
    · simp only [Option.bind_eq_some_iff, Option.map_eq_some_iff, Prod.exists] at rest
      obtain ⟨b, last, right, y, -, same⟩ := rest
      cases same
      exact (calledAt_eval W σ l left).append (calledAt_eval W σ r right)
  | .call name arguments, calls, after, v, value => by
    simp only [eval, Option.map_eq_some_iff, Prod.exists] at value
    obtain ⟨values, mid, evaluated, same⟩ := value
    cases same
    exact (calledAt_evalAll W σ arguments evaluated).append (.call values)

theorem calledAt_evalAll (W : World) (σ : Store) : ∀ (es : List Expr) {calls after : List Call}
    {values : List Value}, evalAll W σ es calls = some (values, after) →
    CalledAt W (Expr.callSitesIn es) calls after
  | [], _, _, _, evaluated => by
    cases evaluated
    exact .nothing
  | e :: es, calls, after, values, evaluated => by
    simp only [evalAll, Option.bind_eq_some_iff, Option.map_eq_some_iff, Prod.exists] at evaluated
    obtain ⟨v, mid, first, others, last, rest, same⟩ := evaluated
    cases same
    exact (calledAt_eval W σ e first).append (calledAt_evalAll W σ es rest)

end

/-! ## The complement -/

/-- **Negation is the exact logical complement.** In every store and for all answers to calls, whether
connectives evaluate both operands or stop at a decisive one: an expression has a Boolean value exactly
when its negation has the other one, after the same calls. The two read the same variables and have the
same calls in them, which are the ones that evaluations make. Negating twice keeps the Boolean value. -/
theorem negate_is_exact_complement (W : World) (σ : Store) (e : Expr) :
    (∀ calls after answer, eval W σ e calls = some (.bool answer, after) ↔
      eval W σ e.negate calls = some (.bool (!answer), after)) ∧
    e.negate.variableSet = e.variableSet ∧
    e.negate.callSites = e.callSites ∧
    (∀ calls after v, eval W σ e calls = some (v, after) ∨ eval W σ e.negate calls = some (v, after) →
      CalledAt W e.callSites calls after) ∧
    ∀ calls after answer, eval W σ e.negate.negate calls = some (.bool answer, after) ↔
      eval W σ e calls = some (.bool answer, after) := by
  refine ⟨fun calls after answer => (eval_negate W σ e calls after answer).symm,
    e.variableSet_negate, e.callSites_negate, ?_, ?_⟩
  · rintro calls after v (value | value)
    · exact calledAt_eval W σ e value
    · rw [← e.callSites_negate]
      exact calledAt_eval W σ e.negate value
  · intro calls after answer
    calc eval W σ e.negate.negate calls = some (.bool answer, after)
        ↔ eval W σ e.negate.negate calls = some (.bool (!!answer), after) := by rw [Bool.not_not]
      _ ↔ eval W σ e.negate calls = some (.bool (!answer), after) :=
        eval_negate W σ e.negate calls after (!answer)
      _ ↔ eval W σ e calls = some (.bool answer, after) := eval_negate W σ e calls after answer

/-- Negating `!!b` twice gives `b`. -/
example : (Expr.not (.not (.var "b"))).negate.negate = .var "b" := rfl

end Concrete

end Dataflow
