import Dataflow.Proofs.Zero.Order

/-!
# The zero analysis computes least solutions

The outputs of a run of the zero analysis solve the equations of the function's graph and are below
every family of environments that is closed under them. They do not depend on when loop heads widen,
since widening only joins.
-/

set_option autoImplicit false

namespace Dataflow.Zero

open Analysis Concrete

/-- **A result of the zero analysis is the least solution of the equations.** Its outputs solve them.
Where a family of environments has something above what the equations ask for from the family, it has an
environment at every reached point, and the output there is at most that. Other settings that allow as
many visits give the same environments. -/
theorem zero_results_are_least_solutions (config : Config) (line : Nat) (called : String)
    (parameters : List String) (body : List Stmt) (source : Option String) (result : Result Zero)
    (ran : analysis.run config (.make line called parameters body source) = .ok result) :
    analysis.IsSolution (.make line called parameters body source)
      (Graph.build (.make line called parameters body source)) result.outputs ∧
    (∀ family, analysis.IsClosed (.make line called parameters body source)
        (Graph.build (.make line called parameters body source)) family →
      ∀ p env, result.outputs.get? p = some env →
        ∃ bound, family.get? p = some bound ∧ env.atMost lattice bound = true) ∧
    ∀ config' : Config, config.maxIterations ≤ config'.maxIterations →
      ∃ other, analysis.run config' (.make line called parameters body source) = .ok other ∧
        other.inputs = result.inputs ∧ other.outputs = result.outputs := by
  have mono := monotonic_analysis line called parameters body source
  refine ⟨mono.isSolution ran, ?_, fun config' enough => mono.run_alike enough ran⟩
  intro family closed p env stored
  obtain ⟨bound, there, below⟩ := mono.coveredBy closed ran p env stored
  exact ⟨bound, there, below.atMost⟩

/-- The family that knows nothing of the variables of the counting loop, at any of its points. -/
def unknownEverywhere : Table Point (Env Zero) :=
  ⟨(Graph.build countUp).points.map fun p => (p, Env.uniform ["n", "x"] unknown)⟩

theorem isClosed_unknownEverywhere :
    analysis.IsClosed countUp (Graph.build countUp) unknownEverywhere :=
  isClosed_of_points (by decide +kernel)

/-- The counting loop: the outputs of a run that never widens solve the equations and stay below the
family that knows nothing, and a run that always widens gives the same ones. -/
theorem countUp_least_solution : ∃ result other,
    analysis.run config countUp = .ok result ∧
    analysis.IsSolution countUp (Graph.build countUp) result.outputs ∧
    (∃ env bound, result.outputs.get? ⟨countLoop⟩ = some env ∧
      unknownEverywhere.get? ⟨countLoop⟩ = some bound ∧ env.atMost lattice bound = true) ∧
    analysis.run .standard countUp = .ok other ∧ other.outputs = result.outputs := by
  obtain ⟨result, ran⟩ : ∃ result, analysis.run config countUp = .ok result :=
    exists_result_of_isOk (by decide +kernel)
  have reached : (match analysis.run config countUp with
      | .ok result => result.isReached ⟨countLoop⟩
      | .error _ => false) = true := by decide +kernel
  rw [ran] at reached
  obtain ⟨env, stored⟩ := Option.isSome_iff_exists.mp reached
  obtain ⟨solves, least, alike⟩ :=
    zero_results_are_least_solutions config 1 "countUp" ["n"] countBody none result ran
  obtain ⟨bound, there, below⟩ := least unknownEverywhere isClosed_unknownEverywhere _ env stored
  obtain ⟨other, ran', -, same⟩ := alike .standard (Nat.le_refl _)
  exact ⟨result, other, ran, solves, ⟨env, bound, stored, there, below⟩, ran', same⟩

end Dataflow.Zero
