import Dataflow.Proofs.Concrete.Execution
import Dataflow.Proofs.Graph.Agenda

/-!
# Graphs follow executions

Control goes through a graph by executing the statement at a point and taking an edge out of it whose
condition holds. The visits of every execution of a body are such a path through the function's graph.
Conversely, when no two statements of the body are the same point, every such path is the visits of an
execution; at most one edge out of a point can be taken, and none can exactly where the execution
finishes or is stuck (`build_preserves_control_flow`).

Both directions rest on one correspondence: the steps of an execution are the ways on from its agenda
whose label lets control pass (`way_of_step`, `step_of_way`).
-/

set_option autoImplicit false

namespace Dataflow.Concrete

open Dataflow.Stmt Dataflow.Graph

/-! ## Paths through a graph -/

/-- A label lets control pass in a store: its condition holds, or it has none. The calls that its
condition makes come after the ones made before. -/
def Passes (W : World) (label : Label) (σ : Store) (calls after : List Call) : Prop :=
  if label.isConditional then eval W σ label.condition calls = some (.bool true, after)
  else after = calls

/-- Control goes from one visit to another by executing a statement and taking an edge. -/
structure Takes (W : World) (e : Edge) (v w : Visit) : Prop where
  source : e.source = v.point
  target : e.target = w.point
  passes : ∃ mid, execute W v.point.statement v.store v.calls = some (w.store, mid) ∧
    Passes W e.label w.store mid w.calls

/-- An edge can be taken after the statement of a visit. -/
def Enabled (W : World) (e : Edge) (v : Visit) : Prop := ∃ w, Takes W e v w

/-- Control goes from one visit to another along an edge of the graph. -/
def Moves (W : World) (g : Graph) (v w : Visit) : Prop := ∃ e ∈ g.edges, Takes W e v w

/-- The visits of a path from the entry of a graph, in order. -/
structure IsPath (W : World) (g : Graph) (σ : Store) (path : List Visit) : Prop where
  start : ∀ v ∈ path.head?, g.entry = some v.point ∧ v.store = σ ∧ v.calls = []
  moves : path.IsChain (Moves W g)

/-! ## Steps are the ways that let control pass -/

/-- Executing a statement and passing along a way on is a step. -/
theorem step_of_way {W : World} {s : Stmt} {rest next : List Stmt} {label : Label} {σ σ' : Store}
    {calls mid after : List Call} (way : (label, next) ∈ ways (s :: rest))
    (ran : execute W s σ calls = some (σ', mid)) (passes : Passes W label σ' mid after) :
    Step W ⟨s :: rest, σ, calls⟩ ⟨next, σ', after⟩ := by
  cases s with
  | assign line target value =>
    simp only [ways, List.mem_singleton, Prod.mk.injEq] at way
    obtain ⟨rfl, rfl⟩ := way
    simp only [execute, Option.map_eq_some_iff, Prod.mk.injEq, Prod.exists] at ran
    obtain ⟨v, last, value, rfl, rfl⟩ := ran
    cases passes
    exact .assign value
  | ifElse line condition thenBody elseBody =>
    cases ran
    simp only [ways, List.mem_cons, Prod.mk.injEq, List.not_mem_nil, or_false] at way
    rcases way with ⟨rfl, rfl⟩ | ⟨rfl, rfl⟩
    · exact .thenBranch passes
    · exact .elseBranch ((eval_negate W σ condition calls after false).mp passes)
  | loop line condition body =>
    cases ran
    simp only [ways, List.mem_cons, Prod.mk.injEq, List.not_mem_nil, or_false] at way
    rcases way with ⟨rfl, rfl⟩ | ⟨rfl, rfl⟩
    · exact .enterLoop passes
    · exact .leaveLoop ((eval_negate W σ condition calls after false).mp passes)
  | ret line value => simp [ways] at way

/-- A step that leaves something to do goes along a way on. -/
theorem way_of_step {W : World} {s t : State} (step : Step W s t) (more : t.todo ≠ []) :
    ∃ statement rest label mid, s.todo = statement :: rest ∧ (label, t.todo) ∈ ways s.todo ∧
      execute W statement s.store s.calls = some (t.store, mid) ∧
      Passes W label t.store mid t.calls := by
  cases step with
  | assign value =>
    exact ⟨_, _, .fallthrough, _, rfl, by simp [ways], by simp [execute, value], rfl⟩
  | thenBranch holds =>
    exact ⟨_, _, ⟨_, .whenTrue⟩, _, rfl, by simp [ways], rfl, holds⟩
  | elseBranch fails =>
    exact ⟨_, _, ⟨_, .whenFalse⟩, _, rfl, by simp [ways], rfl, (eval_negate W _ _ _ _ false).mpr fails⟩
  | enterLoop holds =>
    exact ⟨_, _, ⟨_, .whenTrue⟩, _, rfl, by simp [ways], rfl, holds⟩
  | leaveLoop fails =>
    exact ⟨_, _, ⟨_, .whenFalse⟩, _, rfl, by simp [ways], rfl, (eval_negate W _ _ _ _ false).mpr fails⟩
  | ret value => exact absurd rfl more

/-- The two sides of a branch exclude each other. -/
theorem not_passes_both {W : World} {condition : Expr} {σ : Store} {calls after after' : List Call}
    (yes : Passes W ⟨condition, .whenTrue⟩ σ calls after)
    (no : Passes W ⟨condition.negate, .whenFalse⟩ σ calls after') : False := by
  have holds : eval W σ condition calls = some (.bool true, after) := yes
  have fails := (eval_negate W σ condition calls after' false).mp no
  rw [holds] at fails
  cases fails

/-- At most one way on from an agenda lets control pass. -/
theorem way_unique {W : World} {todo : List Stmt} {way way' : Label × List Stmt} {σ : Store}
    {calls after after' : List Call} (here : way ∈ ways todo) (here' : way' ∈ ways todo)
    (passes : Passes W way.1 σ calls after) (passes' : Passes W way'.1 σ calls after') :
    way = way' := by
  cases todo with
  | nil => simp [ways] at here
  | cons s rest =>
    cases s with
    | assign line target value =>
      simp only [ways, List.mem_singleton] at here here'
      rw [here, here']
    | ifElse line condition thenBody elseBody =>
      simp only [ways, List.mem_cons, List.not_mem_nil, or_false] at here here'
      rcases here with rfl | rfl <;> rcases here' with rfl | rfl
      · rfl
      · exact (not_passes_both passes passes').elim
      · exact (not_passes_both passes' passes).elim
      · rfl
    | loop line condition body =>
      simp only [ways, List.mem_cons, List.not_mem_nil, or_false] at here here'
      rcases here with rfl | rfl <;> rcases here' with rfl | rfl
      · rfl
      · exact (not_passes_both passes passes').elim
      · exact (not_passes_both passes' passes).elim
      · rfl
    | ret line value => simp [ways] at here

/-- A state has at most one next state. -/
theorem Step.unique {W : World} {s t t' : State} (step : Step W s t) (step' : Step W s t') :
    t = t' := by
  cases step <;> cases step' <;> simp_all

/-! ## Executions are paths -/

variable {f : FunctionDef} {W : World} {σ : Store}

/-- A step between agendas of the body that leaves something to do takes an edge of the graph. -/
theorem moves_of_step {s t : State} {v w : Visit} (agenda : s.todo ∈ agendas [] f.body)
    (step : Step W s t) (here : s.visit? = some v) (there : t.visit? = some w) :
    Moves W (build f) v w := by
  obtain ⟨rest, rfl⟩ := visit?_eq_some_iff.mp here
  obtain ⟨more, rfl⟩ := visit?_eq_some_iff.mp there
  obtain ⟨statement, others, label, mid, first, way, ran, passes⟩ := way_of_step step (by simp)
  cases first
  refine ⟨⟨v.point, w.point, label⟩, mem_edges_build.mpr ⟨_, agenda, ?_⟩, rfl, rfl, mid, ran, passes⟩
  exact ⟨_, rfl, _, way, _, rfl, rfl⟩

/-- The steps of an execution lead from an agenda to an agenda or to the end of the body. -/
theorem agenda_of_step {s t : State} (agenda : s.todo ∈ agendas [] f.body) (step : Step W s t) :
    t.todo ∈ agendas [] f.body ∨ t.todo = [] := by
  by_cases more : t.todo = []
  · exact Or.inr more
  · obtain ⟨statement, rest, label, mid, first, way, -⟩ := way_of_step step more
    exact mem_agendas_of_way [] f.body agenda way

/-- A body that is not empty is its own first agenda. -/
theorem agenda_start : f.body ∈ agendas [] f.body ∨ f.body = [] := by
  simpa using append_mem_agendas [] f.body

/-- Every state of an execution has an agenda of the body left to do, or nothing. -/
theorem agenda_of_reaches {s : State} (reached : Reaches W (.start f.body σ) s) :
    s.todo ∈ agendas [] f.body ∨ s.todo = [] := by
  induction reached with
  | refl => exact agenda_start
  | tail _ step ih =>
    rcases ih with agenda | finished
    · exact agenda_of_step agenda step
    · exact absurd step (not_step_of_finished finished)

/-- Executions that have nothing left to do have no further visits. -/
theorem visits_eq_nil_of_finished {s : State} {states : List State} (finished : s.todo = [])
    (steps : (s :: states).IsChain (Step W)) : visits (s :: states) = [] := by
  cases states with
  | nil => rw [visits, List.filterMap_cons_none (visit?_eq_none_iff.mpr finished), List.filterMap_nil]
  | cons t states =>
    exact absurd (List.isChain_cons_cons.mp steps).1 (not_step_of_finished finished)

/-- The visits of an execution go along edges of the graph. -/
theorem isChain_visits (states : List State) (s : State)
    (agenda : s.todo ∈ agendas [] f.body ∨ s.todo = []) (steps : (s :: states).IsChain (Step W)) :
    (visits (s :: states)).IsChain (Moves W (build f)) := by
  induction states generalizing s with
  | nil => cases here : s.visit? <;> simp [visits, here]
  | cons t states ih =>
    rcases agenda with agenda | finished
    · obtain ⟨step, later⟩ := List.isChain_cons_cons.mp steps
      have chain := ih t (agenda_of_step agenda step) later
      obtain ⟨statement, rest, first⟩ := exists_cons_of_mem_agendas agenda
      have here : s.visit? = some ⟨⟨statement⟩, s.store, s.calls⟩ := by simp [State.visit?, first]
      have unfolded : visits (s :: t :: states) =
          ⟨⟨statement⟩, s.store, s.calls⟩ :: visits (t :: states) := by
        rw [visits, List.filterMap_cons_some here, visits]
      rw [unfolded]
      cases there : t.visit? with
      | none =>
        rw [visits_eq_nil_of_finished (visit?_eq_none_iff.mp there) later]
        exact .singleton _
      | some w =>
        rw [visits, List.filterMap_cons_some there] at chain ⊢
        exact .cons_cons (moves_of_step agenda step here there) chain
    · rw [visits_eq_nil_of_finished finished steps]
      exact .nil

/-- **The visits of every execution are a path from the entry of the graph.** -/
theorem isPath_visits {states : List State} (execution : IsExecution W f.body σ states) :
    IsPath W (build f) σ (visits states) := by
  cases states with
  | nil => exact ⟨by simp [visits], .nil⟩
  | cons s states =>
    have first : s = .start f.body σ := execution.start s rfl
    subst first
    refine ⟨?_, isChain_visits states _ agenda_start execution.steps⟩
    intro v head
    cases here : (State.start f.body σ).visit? with
    | none =>
      rw [visits_eq_nil_of_finished (visit?_eq_none_iff.mp here) execution.steps] at head
      simp at head
    | some w =>
      rw [visits, List.filterMap_cons_some here] at head
      cases head
      obtain ⟨rest, same⟩ := visit?_eq_some_iff.mp here
      obtain ⟨body, store, calls⟩ := State.mk.inj same
      exact ⟨by simp [build_eq, body], store.symm, calls.symm⟩

/-! ## Paths are executions -/

/-- An edge that can be taken at the first statement of an agenda is a way on from that agenda, when
no statement occurs twice. -/
theorem way_of_mem_edges {statement : Stmt} {rest : List Stmt} {e : Edge}
    (distinct : (occurrencesIn f.body).Nodup) (agenda : statement :: rest ∈ agendas [] f.body)
    (found : e ∈ (build f).edges) (source : e.source = ⟨statement⟩) :
    ∃ next, (e.label, e.target.statement :: next) ∈ ways (statement :: rest) := by
  obtain ⟨todo, there, first, head, way, onward, t, target, rfl⟩ := mem_edges_build.mp found
  obtain ⟨first, others, rfl⟩ := exists_cons_of_mem_agendas there
  cases head
  cases source
  cases agenda_unique distinct agenda there
  obtain ⟨label, _ | ⟨t', next⟩⟩ := way
  · cases target
  · cases target
    exact ⟨next, onward⟩

/-- The source of an edge has an agenda. -/
theorem exists_agenda_of_mem_edges {e : Edge} (found : e ∈ (build f).edges) :
    ∃ rest, e.source.statement :: rest ∈ agendas [] f.body := by
  obtain ⟨todo, agenda, s, head, way, onward, t, target, rfl⟩ := mem_edges_build.mp found
  obtain ⟨first, rest, rfl⟩ := exists_cons_of_mem_agendas agenda
  cases head
  exact ⟨rest, agenda⟩

section Distinct

variable (distinct : (occurrencesIn f.body).Nodup)

include distinct

/-- Taking an edge at an agenda of the body is a step to another one. -/
theorem step_of_takes {s : State} {v w : Visit} {e : Edge} (agenda : s.todo ∈ agendas [] f.body)
    (here : s.visit? = some v) (found : e ∈ (build f).edges) (takes : Takes W e v w) :
    ∃ t, Step W s t ∧ t.visit? = some w ∧ t.todo ∈ agendas [] f.body := by
  obtain ⟨rest, rfl⟩ := visit?_eq_some_iff.mp here
  obtain ⟨next, way⟩ := way_of_mem_edges distinct agenda found takes.source
  rw [takes.target] at way
  obtain ⟨mid, ran, passes⟩ := takes.passes
  refine ⟨_, step_of_way way ran passes, visit?_eq_some_iff.mpr ⟨next, rfl⟩, ?_⟩
  exact (mem_agendas_of_way [] f.body agenda way).resolve_right (by simp)

/-- Visits that go along edges of the graph are those of an execution. -/
theorem exists_states_of_isChain (path : List Visit) (s : State) (v : Visit)
    (agenda : s.todo ∈ agendas [] f.body) (here : s.visit? = some v)
    (moves : (v :: path).IsChain (Moves W (build f))) :
    ∃ states, (s :: states).IsChain (Step W) ∧ visits (s :: states) = v :: path := by
  induction path generalizing s v with
  | nil => exact ⟨[], .singleton s, by rw [visits, List.filterMap_cons_some here, List.filterMap_nil]⟩
  | cons w path ih =>
    obtain ⟨⟨e, found, takes⟩, later⟩ := List.isChain_cons_cons.mp moves
    obtain ⟨t, step, there, next⟩ := step_of_takes distinct agenda here found takes
    obtain ⟨states, steps, same⟩ := ih t w next there later
    refine ⟨t :: states, .cons_cons step steps, ?_⟩
    rw [visits, List.filterMap_cons_some here, ← visits, same]

/-- **Every path from the entry is the visits of an execution.** -/
theorem exists_execution_of_isPath {path : List Visit} (isPath : IsPath W (build f) σ path) :
    ∃ states, IsExecution W f.body σ states ∧ visits states = path := by
  cases path with
  | nil => exact ⟨[], ⟨by simp, .nil⟩, rfl⟩
  | cons v path =>
    obtain ⟨entry, store, calls⟩ := isPath.start v rfl
    have here : (State.start f.body σ).visit? = some v := by
      obtain ⟨statement, head, point⟩ := Option.map_eq_some_iff.mp entry
      obtain ⟨⟨statement'⟩, store', calls'⟩ := v
      cases point
      cases store
      cases calls
      simp [State.visit?, State.start, head]
    have agenda : f.body ∈ agendas [] f.body := by
      refine agenda_start.resolve_right fun empty => ?_
      rw [visit?_eq_none_iff.mpr empty] at here
      cases here
    obtain ⟨states, steps, same⟩ :=
      exists_states_of_isChain distinct path (.start f.body σ) v agenda here isPath.moves
    exact ⟨.start f.body σ :: states, ⟨by simp [eq_comm], steps⟩, same⟩

/-- After a statement at most one edge can be taken. -/
theorem enabled_unique {v : Visit} {e e' : Edge} (found : e ∈ (build f).edges)
    (found' : e' ∈ (build f).edges) (enabled : Enabled W e v) (enabled' : Enabled W e' v) :
    e = e' := by
  obtain ⟨w, takes⟩ := enabled
  obtain ⟨w', takes'⟩ := enabled'
  obtain ⟨rest, agenda⟩ := exists_agenda_of_mem_edges found
  rw [takes.source] at agenda
  obtain ⟨next, way⟩ := way_of_mem_edges distinct agenda found takes.source
  obtain ⟨next', way'⟩ := way_of_mem_edges distinct agenda found' takes'.source
  obtain ⟨mid, ran, passes⟩ := takes.passes
  obtain ⟨mid', ran', passes'⟩ := takes'.passes
  -- Both edges are taken in the store that the statement leaves.
  have left : w.store = w'.store ∧ mid = mid' := by
    rw [ran] at ran'
    exact Prod.mk.inj (Option.some.inj ran')
  rw [left.1, left.2] at passes
  have same := way_unique way way' passes passes'
  have source : e.source = e'.source := takes.source.trans takes'.source.symm
  have label : e.label = e'.label := (Prod.mk.inj same).1
  have target : e.target = e'.target :=
    congrArg Point.mk (List.cons.inj (Prod.mk.inj same).2).1
  cases e
  cases e'
  simp_all only

/-- No edge can be taken exactly where an execution finishes or is stuck. -/
theorem not_enabled_iff {s : State} {v : Visit} (agenda : s.todo ∈ agendas [] f.body)
    (here : s.visit? = some v) :
    (∀ e ∈ (build f).edges, ¬ Enabled W e v) ↔ s.Finishes W ∨ s.Stuck W := by
  constructor
  · intro none
    by_cases goes : ∃ t, Step W s t
    · -- A step with a visit after it would take an edge.
      obtain ⟨t, step⟩ := goes
      refine Or.inl ⟨t, step, Classical.byContradiction fun more => ?_⟩
      obtain ⟨statement, rest, first⟩ := List.exists_cons_of_ne_nil more
      have there : t.visit? = some ⟨⟨statement⟩, t.store, t.calls⟩ := by
        simp [State.visit?, first]
      obtain ⟨e, found, takes⟩ := moves_of_step agenda step here there
      exact none e found ⟨_, takes⟩
    · refine Or.inr ⟨fun finished => ?_, fun t step => goes ⟨t, step⟩⟩
      rw [visit?_eq_none_iff.mpr finished] at here
      cases here
  · rintro ends e found ⟨w, takes⟩
    obtain ⟨t, step, there, -⟩ := step_of_takes distinct agenda here found takes
    rcases ends with ⟨t', step', finished⟩ | ⟨-, stuck⟩
    · cases step.unique step'
      rw [visit?_eq_none_iff.mpr finished] at there
      cases there
    · exact stuck t step

end Distinct

/-- **Graphs preserve control flow in both directions.** The visits of every execution of the body
are a path from the entry, taking only edges whose condition holds. When the statements of the body
are different points, every such path is the visits of an execution, after any statement at most one
edge can be taken, and none can exactly where the execution finishes or is stuck. -/
theorem build_preserves_control_flow (f : FunctionDef) (W : World) (σ : Store) :
    (∀ states, IsExecution W f.body σ states → IsPath W (build f) σ (visits states)) ∧
    (((occurrencesIn f.body).map Point.mk).Nodup →
      (∀ path, IsPath W (build f) σ path →
        ∃ states, IsExecution W f.body σ states ∧ visits states = path) ∧
      (∀ v, ∀ e ∈ (build f).edges, ∀ e' ∈ (build f).edges,
        Enabled W e v → Enabled W e' v → e = e') ∧
      ∀ s v, Reaches W (.start f.body σ) s → s.visit? = some v →
        ((∀ e ∈ (build f).edges, ¬ Enabled W e v) ↔ s.Finishes W ∨ s.Stuck W)) := by
  refine ⟨fun states execution => isPath_visits execution, fun points => ?_⟩
  have distinct : (occurrencesIn f.body).Nodup := points.of_map
  refine ⟨fun path isPath => exists_execution_of_isPath distinct isPath,
    fun v e found e' found' => enabled_unique distinct found found', fun s v reached here => ?_⟩
  -- A visited state is not finished, so what is left to do is an agenda.
  rcases agenda_of_reaches reached with agenda | finished
  · exact not_enabled_iff distinct agenda here
  · rw [visit?_eq_none_iff.mpr finished] at here
    cases here

/-- The statements of the counting function are different points, so the paths through its graph are
its executions. -/
theorem countUp_paths_are_executions : ((occurrencesIn countUp.body).map Point.mk).Nodup ∧
    ∀ path, IsPath quiet (build countUp) ones path →
      ∃ states, IsExecution quiet countUp.body ones states ∧ visits states = path := by
  have points : ((occurrencesIn countUp.body).map Point.mk).Nodup := by decide +kernel
  exact ⟨points, ((build_preserves_control_flow countUp quiet ones).2 points).1⟩

end Dataflow.Concrete
