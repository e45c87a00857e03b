import Dataflow.Proofs.Analysis.Budget
import Dataflow.Proofs.Zero.Order

/-!
# A budget for the zero analysis

In the zero analysis every output only rises, and the value of a variable rises at most once. So the
output of a point changes at most once more than there are variables, and each change queues at most
one point for each edge out of it (`zero_results_within_budget`).
-/

set_option autoImplicit false

namespace Dataflow.Zero

open Analysis Concrete Env

/-- Above bottom, only `unknown` cannot rise. -/
def height : Zero → Nat
  | unknown => 0
  | _ => 1

theorem descends_height : Descends lattice (· ≠ bottom) height 1 where
  le_cap := by
    intro a _
    cases a <;> decide
  lt_of_rise := by
    intro a b left right
    cases a <;> cases b <;> simp_all [height, atMost_iff]

/-- Every visit costs one, and an output changes as often as it can rise. -/
def tariff (names : List String) : Tariff Zero where
  price := fun _ => 1
  credit := fun _ => allowance height 1 names
  positive := fun _ => Nat.one_pos

theorem bound_tariff_le (names : List String) (g : Graph) :
    (tariff names).bound g ≤ 1 + (names.length + 1) * g.edges.length := by
  have laid : (tariff names).reserve g.edges .empty = g.edges.length * (names.length + 1) := by
    simp [Tariff.reserve, tariff, allowance]
  have start : load (tariff names).price g.entry.toList ≤ 1 := by
    cases g.entry <;> simp [load, tariff]
  rw [Tariff.bound, laid, Nat.mul_comm]
  exact Nat.add_le_add_right start _

/-- The tariff pays for every run in which outputs only rise. -/
theorem paysFor_tariff {f : FunctionDef} {g : Graph} {names : List String}
    (mono : analysis.Monotonic f g (BindsTo (· ≠ bottom) names)) (config : Config) :
    (tariff names).PaysFor analysis config f g
      (analysis.Climbs f g (BindsTo (· ≠ bottom) names)) where
  total := mono.total
  initial := climbs_initial
  advance := fun isEntry climbs advance => mono.advance isEntry climbs advance
  pays := by
    intro entry p run input output update isEntry climbs queued arrived transferred settled changed
    have before := climbs.keeps.outputs p
    have after := mono.kept.output climbs.keeps queued arrived transferred settled
    obtain ⟨-, asked⟩ :=
      mono.settled_demanded isEntry climbs.ascends arrived transferred settled
    have rises := climbs.ascends p
    rw [asked] at rises
    exact Or.inl (allowance_lt descends_height before after rises changed)

/-- **The zero analysis ends within a known number of visits**: one, and for every edge one more than
there are variables. When the settings allow that many visits, the run has a result, after at most that
many. -/
theorem zero_results_within_budget (config : Config) (line : Nat) (called : String)
    (parameters : List String) (body : List Stmt) (source : Option String)
    (enough : 1 + ((FunctionDef.make line called parameters body source).variableSet.size + 1) *
      (Graph.build (.make line called parameters body source)).edges.length ≤ config.maxIterations) :
    ∃ result, analysis.run config (.make line called parameters body source) = .ok result ∧
      result.iterations ≤
        1 + ((FunctionDef.make line called parameters body source).variableSet.size + 1) *
          (Graph.build (.make line called parameters body source)).edges.length := by
  have mono := monotonic_analysis line called parameters body source
  have bounded := bound_tariff_le
    (FunctionDef.make line called parameters body source).variableSet.toList
    (Graph.build (.make line called parameters body source))
  rw [NameSet.toList, NameMap.names, List.length_map] at bounded
  obtain ⟨result, ran, few⟩ := (paysFor_tariff mono config).exists_result (bounded.trans enough)
  exact ⟨result, ran, few.trans bounded⟩

/-- The counting loop has two variables and six edges, so nineteen visits are enough for it. -/
theorem countUp_within_nineteen_visits :
    1 + (countUp.variableSet.size + 1) * (Graph.build countUp).edges.length = 19 ∧
    ∃ result, analysis.run ⟨19, .loopHeads, false⟩ countUp = .ok result ∧ result.iterations ≤ 19 := by
  have nineteen : 1 + (countUp.variableSet.size + 1) * (Graph.build countUp).edges.length = 19 := by
    decide +kernel
  obtain ⟨result, ran, few⟩ := zero_results_within_budget ⟨19, .loopHeads, false⟩ 1 "countUp" ["n"]
    countBody none (Nat.le_of_eq nineteen)
  exact ⟨nineteen, result, ran, few.trans_eq nineteen⟩

end Dataflow.Zero
