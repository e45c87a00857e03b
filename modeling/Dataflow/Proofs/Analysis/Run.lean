import Dataflow.Analysis.Fixpoint
import Mathlib.Logic.Relation

/-!
# The visits of a run

A run that ends with a result is a sequence of visits, each of the first point in the queue, after
which the queue is empty (`runOn_eq_ok`). One visit passes its point over, or stores an input
and an output; only a changed output queues points, namely all successors (`visit_cases`). What holds
before the first visit and is kept by every visit therefore holds of every result.
-/

set_option autoImplicit false

namespace Dataflow.Analysis

/-! ## Queues and successors -/

/-- A queue is extended by the listed points. -/
@[simp] theorem mem_enqueue {queue points : List Point} {p : Point} :
    p ∈ enqueue queue points ↔ p ∈ queue ∨ p ∈ points := by
  induction points generalizing queue with
  | nil => simp [enqueue]
  | cons q rest ih =>
    rw [enqueue]
    split
    · next present =>
      rw [ih, List.mem_cons]
      constructor
      · exact fun found => found.imp_right Or.inr
      · rintro (before | rfl | later)
        · exact Or.inl before
        · exact Or.inl present
        · exact Or.inr later
    · rw [ih, List.mem_append, List.mem_singleton, List.mem_cons, or_assoc]

/-- Dropping later copies keeps the points. -/
theorem mem_distinct {points : List Point} {p : Point} : p ∈ Graph.distinct points ↔ p ∈ points := by
  induction points with
  | nil => rfl
  | cons q rest ih =>
    rw [Graph.distinct, List.mem_cons, List.mem_filter, List.mem_cons, ih, decide_eq_true_eq]
    by_cases here : p = q <;> simp [here]

/-- The successors of a point are the targets of the edges out of it. -/
theorem mem_successors {g : Graph} {p q : Point} :
    q ∈ g.successors p ↔ ∃ e ∈ g.edges, e.source = p ∧ e.target = q := by
  simp [Graph.successors, mem_distinct, Graph.outgoing, and_assoc]

/-- The edges into a point are the edges with that target. -/
theorem mem_incoming {g : Graph} {p : Point} {e : Edge} :
    e ∈ g.incoming p ↔ e ∈ g.edges ∧ e.target = p := by
  simp [Graph.incoming]

/-! ## One edge -/

section Edges

variable {α : Type} [DecidableEq α] {A : Analysis α} {label : Label} {env passed : Env α}

/-- A plain edge lets everything through. -/
theorem along_of_plain (plain : label.isConditional = false) (env : Env α) :
    A.along label env = some env := by
  simp [along, plain]

/-- A conditional edge refines by what its condition says. -/
theorem along_of_narrow (conditional : label.isConditional = true) {bindings : Env α}
    (said : (A.narrow label.condition env).bindings = some bindings) :
    A.along label env = env.refine? A.lattice bindings := by
  simp [along, conditional, said]

/-- What an edge lets through is its source's environment, refined when the edge is conditional. -/
theorem along_cases (passes : A.along label env = some passed) :
    (label.isConditional = true ∧ ∃ bindings,
      (A.narrow label.condition env).bindings = some bindings ∧
        env.refine? A.lattice bindings = some passed) ∨
    (label.isConditional = false ∧ passed = env) := by
  cases conditional : label.isConditional with
  | false =>
    rw [along_of_plain conditional] at passes
    cases passes
    exact Or.inr ⟨rfl, rfl⟩
  | true =>
    refine Or.inl ⟨rfl, ?_⟩
    cases said : (A.narrow label.condition env).bindings with
    | none => simp [along, conditional, said] at passes
    | some bindings => exact ⟨bindings, rfl, along_of_narrow conditional said ▸ passes⟩

end Edges

/-! ## One visit -/

section Settling

variable {α : Type}

/-- How a point's output may come from its new one and the last one: loop heads combine them. -/
inductive Settled (A : Analysis α) (g : Graph) (p : Point) (last : Option (Env α)) (new : Env α) :
    Env α → Prop
  | replaced : (g.isLoopHead p = true → last = none) → Settled A g p last new new
  | joined {env : Env α} : g.isLoopHead p = true → last = some env →
      Settled A g p last new (env.join A.lattice new)
  | widened {env : Env α} : g.isLoopHead p = true → last = some env →
      Settled A g p last new (A.widenEnv env new)

/-- The output of a visit is settled. -/
theorem settled_settle (A : Analysis α) (config : Config) (g : Graph) (run : Run α) (p : Point)
    (new : Env α) : Settled A g p (run.outputs.get? p) new
      (A.settle (settling config g run p) (run.outputs.get? p) new) := by
  unfold settling
  split
  · next head =>
    rw [Bool.and_eq_true] at head
    cases last : run.outputs.get? p with
    | none =>
      dsimp only
      split <;> exact .replaced fun _ => rfl
    | some env =>
      dsimp only
      split
      · exact .widened head.1 rfl
      · exact .joined head.1 rfl
  · next other =>
    have first : g.isLoopHead p = true → run.outputs.get? p = none := by
      intro head
      simpa [head, Table.contains] using other
    cases last : run.outputs.get? p <;> exact .replaced (last ▸ first)

end Settling

variable {α : Type} [DecidableEq α]

omit [DecidableEq α] in
/-- Recording steps changes nothing that is stored. -/
theorem record_stored (run : Run α) (config : Config) (steps : List Step) :
    (run.record config steps).inputs = run.inputs ∧ (run.record config steps).outputs = run.outputs ∧
      (run.record config steps).queue = run.queue := by
  unfold Run.record
  split <;> exact ⟨rfl, rfl, rfl⟩

/-- Storing an output sets the input, and sets the output and queues the successors on a change. The
state it starts from may differ from `run` in what is not stored. -/
theorem store_cases (g : Graph) {run base : Run α} (same : base.inputs = run.inputs ∧
      base.outputs = run.outputs ∧ base.queue = run.queue) (p : Point) (input output : Env α) :
    (store g base p input output).inputs = run.inputs.set p input ∧
      (run.outputs.get? p = some output ∧ (store g base p input output).outputs = run.outputs ∧
          (store g base p input output).queue = run.queue ∨
        run.outputs.get? p ≠ some output ∧
          (store g base p input output).outputs = run.outputs.set p output ∧
          (store g base p input output).queue = enqueue run.queue (g.successors p)) := by
  obtain ⟨inputs, outputs, queue⟩ := same
  by_cases unchanged : run.outputs.get? p = some output
  · simp [store, inputs, outputs, queue, unchanged]
  · simp [store, inputs, outputs, queue, unchanged]

variable {A : Analysis α} {config : Config} {f : FunctionDef} {g : Graph} {entry : Point}

/-- **What a visit does.** Without arrivals it changes nothing that is stored. Otherwise it stores
the input and the settled output, and queues the successors when the output changed. -/
theorem visit_cases {run next : Run α} {p : Point}
    (visited : A.visit config f g entry run p = .ok next) :
    (A.inflow g run.outputs (A.seed? f entry p) p = none ∧ next.inputs = run.inputs ∧
      next.outputs = run.outputs ∧ next.queue = run.queue) ∨
    ∃ input update output, A.inflow g run.outputs (A.seed? f entry p) p = some input ∧
      A.transfer p input = .ok update ∧
      Settled A g p (run.outputs.get? p) (input.updated update.bindings) output ∧
      next.inputs = run.inputs.set p input ∧
      (run.outputs.get? p = some output ∧ next.outputs = run.outputs ∧ next.queue = run.queue ∨
        run.outputs.get? p ≠ some output ∧ next.outputs = run.outputs.set p output ∧
          next.queue = enqueue run.queue (g.successors p)) := by
  unfold visit at visited
  dsimp only at visited
  split at visited
  · next nothing =>
    cases visited
    exact Or.inl ⟨nothing, record_stored run config _⟩
  · next input arrived =>
    split at visited
    · cases visited
    · next update transferred =>
      refine Or.inr ⟨input, update, _, arrived, transferred,
        settled_settle A config g run p _, ?_⟩
      -- Neither the recorded steps nor the counted revisit touch what is stored.
      split at visited
      all_goals
        cases visited
        refine store_cases g ?_ p input _
        exact record_stored run config _

/-- A visit fails only where the transfer does. -/
theorem exists_visit {p : Point} (total : ∀ env, ∃ update, A.transfer p env = .ok update)
    (run : Run α) : ∃ next, A.visit config f g entry run p = .ok next := by
  unfold visit
  dsimp only
  split
  · exact ⟨_, rfl⟩
  · next input _ =>
    obtain ⟨update, transferred⟩ := total input
    rw [transferred]
    exact ⟨_, rfl⟩

/-- The number of visits is counted before a visit. -/
theorem iterations_visit {run next : Run α} {p : Point}
    (visited : A.visit config f g entry run p = .ok next) : next.iterations = run.iterations := by
  have recorded : ∀ steps, (run.record config steps).iterations = run.iterations := by
    intro steps
    unfold Run.record
    split <;> rfl
  have stored : ∀ (base : Run α) (input output : Env α),
      (store g base p input output).iterations = base.iterations := by
    intro base input output
    unfold store
    dsimp only
    split <;> rfl
  unfold visit at visited
  dsimp only at visited
  split at visited
  · cases visited
    exact recorded _
  · split at visited
    · cases visited
    · split at visited <;> cases visited <;> exact (stored _ _ _).trans (recorded _)

/-! ## All visits -/

/-- One visit of a run: of the first point in its queue. -/
def Advances (A : Analysis α) (config : Config) (f : FunctionDef) (g : Graph) (entry : Point)
    (run next : Run α) : Prop :=
  ∃ p rest, run.queue = p :: rest ∧
    A.visit config f g entry { run with queue := rest, iterations := run.iterations + 1 } p = .ok next

/-- A run with an empty queue is drained. -/
theorem drain_of_empty {run : Run α} (empty : run.queue = []) (budget : Nat) :
    A.drain config f g entry budget run = .ok run := by
  rw [drain.eq_def]
  simp only [empty]

/-- A visit uses up one of the visits that are left. -/
theorem drain_of_advances {run next : Run α} (advance : A.Advances config f g entry run next)
    (left : Nat) : A.drain config f g entry (left + 1) run = A.drain config f g entry left next := by
  obtain ⟨p, rest, queue, visited⟩ := advance
  rw [drain.eq_def]
  simp only [queue, visited]

/-- A drained run had an empty queue, or is the drained run of its first visit. -/
theorem drain_eq_ok {budget : Nat} {run final : Run α}
    (drained : A.drain config f g entry budget run = .ok final) :
    run.queue = [] ∧ final = run ∨ ∃ left next, budget = left + 1 ∧
      A.Advances config f g entry run next ∧ A.drain config f g entry left next = .ok final := by
  cases queue : run.queue with
  | nil =>
    rw [drain_of_empty queue] at drained
    cases drained
    exact Or.inl ⟨rfl, rfl⟩
  | cons p rest =>
    rw [drain.eq_def] at drained
    cases budget with
    | zero => simp [queue] at drained
    | succ left =>
      simp only [queue] at drained
      split at drained
      · cases drained
      · next next visited => exact Or.inr ⟨left, next, rfl, ⟨p, rest, queue, visited⟩, drained⟩

/-- A drained run got to an empty queue by visits. -/
theorem advances_of_drain {budget : Nat} {run final : Run α}
    (drained : A.drain config f g entry budget run = .ok final) :
    Relation.ReflTransGen (A.Advances config f g entry) run final ∧ final.queue = [] := by
  induction budget generalizing run with
  | zero =>
    rcases drain_eq_ok drained with ⟨empty, rfl⟩ | ⟨left, next, impossible, -⟩
    · exact ⟨.refl, empty⟩
    · cases impossible
  | succ left ih =>
    rcases drain_eq_ok drained with ⟨empty, rfl⟩ | ⟨left', next, same, advance, later⟩
    · exact ⟨.refl, empty⟩
    · cases same
      obtain ⟨advances, empty⟩ := ih later
      exact ⟨.head advance advances, empty⟩

/-- A result without an entry is empty, and any other is that of a run whose visits emptied the
queue. -/
theorem runOn_eq_ok {result : Result α} (ran : A.runOn config f g = .ok result) :
    g.entry = none ∧ result = .empty ∨
      ∃ entry final, g.entry = some entry ∧
        Relation.ReflTransGen (A.Advances config f g entry) (.initial entry) final ∧
        final.queue = [] ∧ result = final.result := by
  unfold runOn at ran
  split at ran
  · next absent =>
    cases ran
    exact Or.inl ⟨absent, rfl⟩
  · next entry present =>
    split at ran
    · cases ran
    · next final drained =>
      cases ran
      obtain ⟨advances, empty⟩ := advances_of_drain drained
      exact Or.inr ⟨entry, final, present, advances, empty, rfl⟩

omit [DecidableEq α] in
/-- A run that does not fail has a result. -/
theorem exists_result_of_isOk {outcome : Except AnalysisError (Result α)}
    (fine : outcome.isOk = true) : ∃ result, outcome = .ok result := by
  cases outcome with
  | error cause => cases fine
  | ok result => exact ⟨result, rfl⟩

end Dataflow.Analysis
