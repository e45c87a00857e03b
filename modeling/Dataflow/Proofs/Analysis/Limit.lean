import Dataflow.Proofs.Analysis.LeastSolution
import Dataflow.Proofs.Interval.Soundness
import Dataflow.Proofs.Zero.Soundness

/-!
# The limit on visits is a threshold

A run takes the same visits under every limit, as far as the limit lets it: no part of a visit depends on
the limit (`advances_withLimit`). So a run with a result has the same result under every limit that is at
least the number of its visits, skipped points included, and under every smaller limit it fails and
reports that limit (`runOn_withLimit`). A run whose transfers never fail has no other error
(`eq_iterationLimit_of_runOn`).
-/

set_option autoImplicit false

namespace Dataflow

/-- The settings with another limit on visits. -/
def Config.withLimit (config : Config) (limit : Nat) : Config := { config with maxIterations := limit }

namespace Analysis

variable {α : Type} [DecidableEq α] {A : Analysis α} {config : Config} {f : FunctionDef} {g : Graph}
  {entry : Point}

/-! ## One visit -/

/-- A visit is the same under every limit. -/
theorem advances_withLimit {run next : Run α} (limit : Nat) :
    A.Advances (config.withLimit limit) f g entry run next ↔ A.Advances config f g entry run next :=
  Iff.rfl

/-- Every visit counts. -/
theorem iterations_of_advances {run next : Run α} (advance : A.Advances config f g entry run next) :
    next.iterations = run.iterations + 1 := by
  obtain ⟨p, rest, -, visited⟩ := advance
  exact iterations_visit visited

/-- A run that has points to visit and no visits left fails. -/
theorem drain_zero_of_queue {run : Run α} {p : Point} {rest : List Point} (queue : run.queue = p :: rest) :
    A.drain config f g entry 0 run = .error (.iterationLimit config.maxIterations) := by
  rw [drain.eq_def]
  simp only [queue]

/-- What a run over a graph with an entry gives. -/
theorem runOn_of_entry (isEntry : g.entry = some entry) :
    A.runOn config f g =
      (A.drain config f g entry config.maxIterations (.initial entry)).map Run.result := by
  rw [runOn, isEntry]
  dsimp only
  cases A.drain config f g entry config.maxIterations (.initial entry) <;> rfl

/-! ## All visits -/

/-- A drained run has counted the visits it was allowed at most. -/
theorem iterations_of_drain {budget : Nat} {run final : Run α}
    (drained : A.drain config f g entry budget run = .ok final) :
    run.iterations ≤ final.iterations ∧ final.iterations ≤ run.iterations + budget := by
  induction budget generalizing run with
  | zero =>
    rcases drain_eq_ok drained with ⟨-, rfl⟩ | ⟨left, next, impossible, -⟩
    · exact ⟨Nat.le_refl _, Nat.le_refl _⟩
    · cases impossible
  | succ left ih =>
    rcases drain_eq_ok drained with ⟨-, rfl⟩ | ⟨left', next, same, advance, later⟩
    · exact ⟨Nat.le_refl _, Nat.le_add_right _ _⟩
    · cases same
      have counted := iterations_of_advances advance
      obtain ⟨before, within⟩ := ih later
      omega

/-- **A run that is drained by some number of visits is drained by every number from that of its visits
on, and by no smaller one.** -/
theorem drain_withLimit {budget : Nat} {run final : Run α}
    (drained : A.drain config f g entry budget run = .ok final) (limit left : Nat) :
    A.drain (config.withLimit limit) f g entry left run =
      if final.iterations ≤ run.iterations + left then .ok final else .error (.iterationLimit limit) := by
  -- The induction is on the visits of the given run; the other run is taken along one visit at a time.
  induction budget generalizing run left with
  | zero =>
    rcases drain_eq_ok drained with ⟨empty, rfl⟩ | ⟨_, next, impossible, -⟩
    · rw [drain_of_empty empty, if_pos (Nat.le_add_right _ _)]
    · cases impossible
  | succ budget ih =>
    rcases drain_eq_ok drained with ⟨empty, rfl⟩ | ⟨_, next, same, advance, later⟩
    · rw [drain_of_empty empty, if_pos (Nat.le_add_right _ _)]
    · cases same
      have counted := iterations_of_advances advance
      have taken := (advances_withLimit limit).mpr advance
      cases left with
      | zero =>
        obtain ⟨p, rest, queue, -⟩ := taken
        have beyond := (iterations_of_drain later).1
        rw [drain_zero_of_queue queue, if_neg (by omega)]
        rfl
      | succ left =>
        rw [drain_of_advances taken, ih later, counted, Nat.add_assoc, Nat.add_comm 1 left]

/-- **A run with a result has it under every limit that is at least the number of its visits**, and under
every smaller limit it fails and reports that limit. -/
theorem runOn_withLimit {result : Result α} (ran : A.runOn config f g = .ok result) :
    result.iterations ≤ config.maxIterations ∧
      ∀ limit, A.runOn (config.withLimit limit) f g =
        if result.iterations ≤ limit then .ok result else .error (.iterationLimit limit) := by
  cases isEntry : g.entry with
  | none =>
    simp only [runOn, isEntry] at ran ⊢
    cases ran
    exact ⟨Nat.zero_le _, fun limit => (if_pos (Nat.zero_le limit)).symm⟩
  | some entry =>
    simp only [runOn_of_entry isEntry] at ran ⊢
    cases drained : A.drain config f g entry config.maxIterations (.initial entry) with
    | error cause => cases drained ▸ ran
    | ok final =>
      cases drained ▸ ran
      have within := (iterations_of_drain drained).2
      refine ⟨within.trans_eq (Nat.zero_add _), fun limit => ?_⟩
      have start : (Run.initial entry : Run α).iterations + (config.withLimit limit).maxIterations = limit :=
        Nat.zero_add limit
      rw [drain_withLimit drained limit, start]
      exact apply_ite (Except.map Run.result) _ _ _

/-! ## Errors -/

/-- Visits that never fail lead to no error but the limit. -/
theorem eq_iterationLimit_of_drain (total : ∀ p env, ∃ update, A.transfer p env = .ok update)
    {budget : Nat} {run : Run α} {cause : AnalysisError}
    (failed : A.drain config f g entry budget run = .error cause) :
    cause = .iterationLimit config.maxIterations := by
  induction budget generalizing run with
  | zero =>
    cases queue : run.queue with
    | nil => cases (drain_of_empty queue 0).symm.trans failed
    | cons p rest =>
      cases (drain_zero_of_queue queue).symm.trans failed
      rfl
  | succ left ih =>
    cases queue : run.queue with
    | nil => cases (drain_of_empty queue _).symm.trans failed
    | cons p rest =>
      obtain ⟨next, visited⟩ := exists_visit (total p)
        { run with queue := rest, iterations := run.iterations + 1 }
      rw [drain_of_advances ⟨p, rest, queue, visited⟩] at failed
      exact ih failed

/-- **A run whose transfers never fail can only exceed the limit.** -/
theorem eq_iterationLimit_of_runOn (total : ∀ p env, ∃ update, A.transfer p env = .ok update)
    {cause : AnalysisError} (failed : A.runOn config f g = .error cause) :
    cause = .iterationLimit config.maxIterations := by
  cases isEntry : g.entry with
  | none =>
    simp only [runOn, isEntry] at failed
    cases failed
  | some entry =>
    rw [runOn_of_entry isEntry] at failed
    cases drained : A.drain config f g entry config.maxIterations (.initial entry) with
    | error stopped =>
      cases drained ▸ failed
      exact eq_iterationLimit_of_drain total drained
    | ok final => cases drained ▸ failed

end Analysis

open Analysis

/-- **The limit on visits is a pure threshold.** For every analysis, function and graph: a result under
some limit was reached within that limit; it is the result, with its environments, visits and steps, under
every limit that is at least the number of visits, and every smaller limit is exceeded and reported. The
zero analysis, and the interval analysis of every size, have no other error on any graph. -/
theorem visit_limit_is_threshold :
    (∀ {α : Type} [DecidableEq α] (A : Analysis α) (config : Config) (f : FunctionDef) (g : Graph)
      (result : Result α), A.runOn config f g = .ok result →
      result.iterations ≤ config.maxIterations ∧
        ∀ limit, A.runOn (config.withLimit limit) f g =
          if result.iterations ≤ limit then .ok result else .error (.iterationLimit limit)) ∧
    (∀ config f g cause, Zero.analysis.runOn config f g = .error cause →
      cause = .iterationLimit config.maxIterations) ∧
    ∀ size config f g cause, (Interval.analysis size).runOn config f g = .error cause →
      cause = .iterationLimit config.maxIterations := by
  refine ⟨fun A config f g result ran => runOn_withLimit ran, ?_, ?_⟩
  · intro config f g cause failed
    refine eq_iterationLimit_of_runOn (fun p env => ?_) failed
    rw [Zero.transfer_analysis]
    exact exists_dispatch _ p env
  · intro size config f g cause failed
    refine eq_iterationLimit_of_runOn (fun p env => ?_) failed
    rw [Interval.transfer_analysis]
    exact exists_dispatch _ p env

/-- A function whose first branch is never taken: the statement there is visited and passed over. -/
def neverTaken : FunctionDef :=
  .make 1 "neverTaken" [] [.ifElse 2 (.bool false) [.assign 3 "x" (.int 1)] [.assign 5 "x" (.int 2)],
    .ret 7 (.var "x")] none

/-- The statement on line three is not reached, and its visit counts: four visits are enough and three
are not. -/
theorem neverTaken_needs_four_visits : ∃ result,
    Zero.analysis.runOn ⟨1000, .never, true⟩ neverTaken (Graph.build neverTaken) = .ok result ∧
    result.iterations = 4 ∧ result.atLine? 3 = none ∧
    Zero.analysis.runOn ⟨4, .never, true⟩ neverTaken (Graph.build neverTaken) = .ok result ∧
    Zero.analysis.runOn ⟨3, .never, true⟩ neverTaken (Graph.build neverTaken) =
      .error (.iterationLimit 3) := by
  obtain ⟨result, ran⟩ : ∃ result, Zero.analysis.runOn ⟨1000, .never, true⟩ neverTaken
      (Graph.build neverTaken) = .ok result := exists_result_of_isOk (by decide +kernel)
  have known : (Zero.analysis.runOn ⟨1000, .never, true⟩ neverTaken (Graph.build neverTaken)).toOption.map
      (fun result => (result.iterations, result.atLine? 3)) = some (4, none) := by
    decide +kernel
  rw [ran] at known
  obtain ⟨counted, unreached⟩ := Prod.mk.inj (Option.some.inj known)
  obtain ⟨-, others⟩ := visit_limit_is_threshold.1 Zero.analysis ⟨1000, .never, true⟩ neverTaken
    (Graph.build neverTaken) result ran
  rw [counted] at others
  exact ⟨result, ran, counted, unreached, others 4, others 3⟩

end Dataflow
