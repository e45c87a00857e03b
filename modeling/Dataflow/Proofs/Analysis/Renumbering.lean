import Dataflow.Proofs.Graph.Renumbering
import Dataflow.Proofs.Interval.Soundness
import Dataflow.Proofs.Zero.Soundness

/-!
# Line numbers are only names

An analysis is blind to line numbers when its transfer is the same at statements that differ only in
them. Runs of such an analysis over paired graphs go in step: they visit paired points, store equal
environments there and record steps that differ only in the lines they name (`InStep.visit`,
`InStep.drain`). So functions that differ only in line numbers have the same results up to these
(`results_keep_under_renumbering`).

Lines are not renamed by a function of lines: statements on one line of a text may be on several lines of
another. What is renamed is the point that a line stands for.
-/

set_option autoImplicit false

namespace Dataflow

open Relator Stmt

/-! ## Outcomes and tables -/

/-- Two computations fail alike or have related results. -/
inductive Agree {ε β γ : Type} (S : β → γ → Prop) : Except ε β → Except ε γ → Prop
  | error (cause : ε) : Agree S (.error cause) (.error cause)
  | ok {b : β} {c : γ} : S b c → Agree S (.ok b) (.ok c)

/-- What agrees with a result is a result. -/
theorem Agree.exists_ok {ε β γ : Type} {S : β → γ → Prop} {b : β} {outcome : Except ε γ}
    (agree : Agree S (.ok b) outcome) : ∃ c, outcome = .ok c ∧ S b c := by
  cases agree with
  | ok related => exact ⟨_, rfl, related⟩

/-- Tables with equal values at paired keys and none at other keys. -/
structure Table.Paired {κ β : Type} [DecidableEq κ] (R : κ → κ → Prop) (table table' : Table κ β) : Prop where
  values : ∀ {k k' : κ}, R k k' → table.get? k = table'.get? k'
  left : ∀ k, (table.get? k).isSome → ∃ k', R k k'
  right : ∀ k', (table'.get? k').isSome → ∃ k, R k k'

section Tables

variable {κ β : Type} [DecidableEq κ] {R : κ → κ → Prop} {table table' : Table κ β}

theorem Table.paired_empty : Table.Paired R (.empty : Table κ β) .empty := by
  constructor
  · intro k k' _
    rfl
  · intro k found
    cases found
  · intro k' found
    cases found

theorem Table.Paired.set (unique : BiUnique R) (paired : Table.Paired R table table') {k k' : κ}
    (key : R k k') (value : β) : Table.Paired R (table.set k value) (table'.set k' value) := by
  constructor
  · intro other other' related
    have same : other = k ↔ other' = k' := rel_eq unique related key
    by_cases here : other = k
    · simp [here, same.mp here]
    · simp [here, mt same.mpr here, paired.values related]
  · intro other found
    by_cases here : other = k
    · exact ⟨k', here ▸ key⟩
    · rw [Table.get?_set, if_neg here] at found
      exact paired.left other found
  · intro other' found
    by_cases here : other' = k'
    · exact ⟨k, here ▸ key⟩
    · rw [Table.get?_set, if_neg here] at found
      exact paired.right other' found

theorem Table.Paired.contains (paired : Table.Paired R table table') {k k' : κ} (key : R k k') :
    table.contains k = table'.contains k' := by
  rw [Table.contains, Table.contains, paired.values key]

end Tables

/-! ## Steps -/

/-- Kinds of steps that differ only in the line of paired points. -/
inductive StepKind.Paired (R : Point → Point → Prop) : StepKind → StepKind → Prop
  | transfer : StepKind.Paired R .transfer .transfer
  | condition {p p' : Point} (branch : Branch) (feasible : Bool) : R p p' →
      StepKind.Paired R (.condition p.line branch feasible) (.condition p'.line branch feasible)
  | widening (name : String) : StepKind.Paired R (.widening name) (.widening name)

/-- Steps that differ only in the lines of paired points. -/
structure Step.Paired (R : Point → Point → Prop) (step step' : Step) : Prop where
  iteration : step.iteration = step'.iteration
  line : ∃ p p', R p p' ∧ step.line = p.line ∧ step'.line = p'.line
  kind : StepKind.Paired R step.kind step'.kind
  rule : step.rule = step'.rule

namespace Analysis

variable {α : Type} [DecidableEq α] {A : Analysis α} {R : Point → Point → Prop}

/-! ## One edge -/

section Edges

variable {outputs outputs' : Table Point (Env α)} {e e' : Edge}

/-- Over paired edges the same arrives. -/
theorem arrival_paired (stored : Table.Paired R outputs outputs') (edge : Edge.Paired R e e') :
    A.arrival outputs e = A.arrival outputs' e' := by
  simp only [arrival, stored.values edge.source, edge.label]

/-- Over paired edges the same arrives in total. -/
theorem inflow_paired (unique : BiUnique R) {g g' : Graph} (graphs : Graph.Paired R g g')
    (stored : Table.Paired R outputs outputs') {p p' : Point} (point : R p p') (seed : Option (Env α)) :
    A.inflow g outputs seed p = A.inflow g' outputs' seed p' := by
  unfold inflow
  generalize g.incoming p = edges, g'.incoming p' = edges', graphs.incoming unique point = all
  induction all generalizing seed with
  | nil => rfl
  | cons edge _ ih => rw [List.foldl_cons, List.foldl_cons, arrival_paired stored edge, ih]

/-- The recorded steps of paired edges are paired. -/
theorem edgeStep?_paired (stored : Table.Paired R outputs outputs') (iteration : Nat)
    (edge : Edge.Paired R e e') :
    Option.Rel (Step.Paired R) (A.edgeStep? outputs iteration e) (A.edgeStep? outputs' iteration e') := by
  unfold edgeStep?
  rw [stored.values edge.source, edge.label]
  cases outputs'.get? e'.source with
  | none => exact .none
  | some env =>
    dsimp only
    split
    · exact .some ⟨rfl, ⟨_, _, edge.target, rfl, rfl⟩, .condition _ _ edge.source, rfl⟩
    · exact .none

end Edges

omit [DecidableEq α] in
/-- The recorded steps of the same widening at paired points are paired. -/
theorem widenSteps_paired {p p' : Point} (point : R p p') (iteration : Nat) (last new : Env α) :
    List.Forall₂ (Step.Paired R) (A.widenSteps iteration p.line last new)
      (A.widenSteps iteration p'.line last new) := by
  unfold widenSteps
  refine List.rel_filterMap (R := Eq) ?_ (List.forall₂_refl _)
  rintro binding _ rfl
  dsimp only
  cases NameMap.get? last binding.1 with
  | none => exact .none
  | some value => exact .some ⟨rfl, ⟨p, p', point, rfl, rfl⟩, .widening _, rfl⟩

/-! ## One visit -/

/-- An analysis that transfers alike at statements that differ only in line numbers. -/
def LineBlind (A : Analysis α) : Prop :=
  ∀ p p' : Point, p.statement.withoutLines = p'.statement.withoutLines → A.transfer p = A.transfer p'

/-- What two runs have in common: one analysis that is blind to lines, paired graphs whose paired points
differ only in line numbers, and the same variables. -/
structure InStep (A : Analysis α) (R : Point → Point → Prop) (f f' : FunctionDef) (g g' : Graph) : Prop where
  blind : A.LineBlind
  unique : BiUnique R
  statements : ∀ {p p' : Point}, R p p' → p.statement.withoutLines = p'.statement.withoutLines
  graphs : Graph.Paired R g g'
  variableSets : f.variableSet = f'.variableSet

/-- States of two runs with paired queues, stored environments and steps. -/
structure Run.Paired (R : Point → Point → Prop) (run run' : Run α) : Prop where
  queue : List.Forall₂ R run.queue run'.queue
  inputs : Table.Paired R run.inputs run'.inputs
  outputs : Table.Paired R run.outputs run'.outputs
  revisits : Table.Paired R run.revisits run'.revisits
  iterations : run.iterations = run'.iterations
  steps : List.Forall₂ (Step.Paired R) run.steps.toList run'.steps.toList

section Visit

variable {config : Config} {f f' : FunctionDef} {g g' : Graph} {entry entry' p p' : Point}
  {run run' : Run α}

omit [DecidableEq α] in
theorem Run.Paired.record (paired : Run.Paired R run run') {steps steps' : List Step}
    (more : List.Forall₂ (Step.Paired R) steps steps') (config : Config) :
    Run.Paired R (run.record config steps) (run'.record config steps') := by
  unfold Run.record
  split
  · refine { paired with steps := ?_ }
    simp only [Array.toList_appendList]
    exact List.rel_append paired.steps more
  · exact paired

omit [DecidableEq α] in
theorem Run.Paired.count (unique : BiUnique R) (paired : Run.Paired R run run') (point : R p p')
    (revisit : Nat) : Run.Paired R { run with revisits := run.revisits.set p revisit }
      { run' with revisits := run'.revisits.set p' revisit } :=
  { paired with revisits := paired.revisits.set unique point revisit }

theorem forall₂_enqueue (unique : BiUnique R) {points points' : List Point}
    (all : List.Forall₂ R points points') {queue queue' : List Point} (paired : List.Forall₂ R queue queue') :
    List.Forall₂ R (enqueue queue points) (enqueue queue' points') := by
  induction all generalizing queue queue' with
  | nil => exact paired
  | @cons q q' _ _ point _ ih =>
    have listed : q ∈ queue ↔ q' ∈ queue' := List.rel_mem unique point paired
    rw [enqueue, enqueue]
    by_cases waiting : q ∈ queue
    · rw [if_pos waiting, if_pos (listed.mp waiting)]
      exact ih paired
    · rw [if_neg waiting, if_neg (mt listed.mpr waiting)]
      exact ih (Graph.forall₂_concat paired point)

theorem Run.Paired.store (unique : BiUnique R) (graphs : Graph.Paired R g g') (paired : Run.Paired R run run')
    (point : R p p') (input output : Env α) :
    Run.Paired R (store g run p input output) (store g' run' p' input output) := by
  have inputs := paired.inputs.set unique point input
  have last := paired.outputs.values point
  unfold Analysis.store
  dsimp only
  rw [last]
  split
  · exact { paired with inputs := inputs }
  · exact { paired with
      inputs := inputs
      outputs := paired.outputs.set unique point output
      queue := forall₂_enqueue unique (graphs.successors unique point) paired.queue }

namespace InStep

variable (inStep : InStep A R f f' g g')

include inStep

omit [DecidableEq α] in
/-- The outputs of paired points settle alike. -/
theorem settling_eq (paired : Run.Paired R run run') (point : R p p') :
    settling config g run p = settling config g' run' p' := by
  unfold settling
  rw [inStep.graphs.isLoopHead inStep.unique point (inStep.statements point),
    paired.outputs.contains point, paired.revisits.values point]

omit [DecidableEq α] in
/-- Paired points are seeded alike. -/
theorem seed?_eq (start : R entry entry') (point : R p p') :
    A.seed? f entry p = A.seed? f' entry' p' := by
  have same : p = entry ↔ p' = entry' := rel_eq inStep.unique point start
  unfold seed?
  rw [inStep.variableSets]
  by_cases here : p = entry
  · rw [if_pos here, if_pos (same.mp here)]
  · rw [if_neg here, if_neg (mt same.mpr here)]

/-- **Visits of paired points fail alike or keep the runs paired.** -/
theorem visit (config : Config) (start : R entry entry') (paired : Run.Paired R run run') (point : R p p') :
    Agree (Run.Paired R) (A.visit config f g entry run p) (A.visit config f' g' entry' run' p') := by
  have arrivals : List.Forall₂ (Step.Paired R)
      ((g.incoming p).filterMap (A.edgeStep? run.outputs run'.iterations))
      ((g'.incoming p').filterMap (A.edgeStep? run'.outputs run'.iterations)) := by
    refine List.rel_filterMap ?_ (inStep.graphs.incoming inStep.unique point)
    intro e e' edge
    exact edgeStep?_paired paired.outputs run'.iterations edge
  unfold Analysis.visit
  dsimp only
  rw [inStep.seed?_eq start point, inflow_paired inStep.unique inStep.graphs paired.outputs point,
    paired.iterations]
  cases A.inflow g' run'.outputs (A.seed? f' entry' p') p' with
  | none => exact .ok (paired.record arrivals config)
  | some input =>
    dsimp only
    rw [inStep.blind p p' (inStep.statements point)]
    cases A.transfer p' input with
    | error cause => exact .error cause
    | ok update =>
      dsimp only
      rw [inStep.settling_eq paired point, paired.outputs.values point]
      generalize settling config g' run' p' = how
      generalize run'.outputs.get? p' = last
      -- One more step for the transfer; more follow only where a loop head widens.
      have transferred : Step.Paired R ⟨run'.iterations, p.line, .transfer, update.rule⟩
          ⟨run'.iterations, p'.line, .transfer, update.rule⟩ :=
        .mk rfl ⟨p, p', point, rfl, rfl⟩ .transfer rfl
      have steps := Graph.forall₂_concat arrivals transferred
      have plain := paired.record (List.rel_append steps .nil) config
      cases how with
      | replace => exact .ok (plain.store inStep.unique inStep.graphs point input _)
      | join revisit =>
        exact .ok ((plain.count inStep.unique point revisit).store inStep.unique inStep.graphs point input _)
      | widen revisit =>
        cases last with
        | none =>
          exact .ok ((plain.count inStep.unique point revisit).store inStep.unique inStep.graphs point input _)
        | some last =>
          have widened := widenSteps_paired (A := A) point run'.iterations last
            (input.updated update.bindings)
          have recorded := paired.record (List.rel_append steps widened) config
          exact .ok ((recorded.count inStep.unique point revisit).store inStep.unique inStep.graphs point
            input _)

/-- **Runs that are paired fail alike or end paired.** -/
theorem drain (config : Config) (start : R entry entry') (budget : Nat) (paired : Run.Paired R run run') :
    Agree (Run.Paired R) (A.drain config f g entry budget run) (A.drain config f' g' entry' budget run') := by
  induction budget generalizing run run' with
  | zero =>
    have queue := paired.queue
    rw [drain.eq_def, drain.eq_def]
    dsimp only
    generalize run.queue = waiting at queue ⊢
    generalize run'.queue = waiting' at queue ⊢
    cases queue with
    | nil => exact .ok paired
    | cons _ _ => exact .error _
  | succ left ih =>
    have queue := paired.queue
    rw [drain.eq_def, drain.eq_def]
    dsimp only
    generalize run.queue = waiting at queue ⊢
    generalize run'.queue = waiting' at queue ⊢
    cases queue with
    | nil => exact .ok paired
    | @cons q q' rest rest' point later =>
      have taken : Run.Paired R { run with queue := rest, iterations := run.iterations + 1 }
          { run' with queue := rest', iterations := run'.iterations + 1 } :=
        { paired with queue := later, iterations := congrArg (· + 1) paired.iterations }
      have visited := inStep.visit config start taken point
      dsimp only
      generalize A.visit config f g entry _ q = outcome at visited ⊢
      generalize A.visit config f' g' entry' _ q' = outcome' at visited ⊢
      cases visited with
      | error cause => exact .error cause
      | ok after => exact ih after

end InStep

end Visit

/-! ## Results -/

/-- Results of two bodies that differ only in the lines they name: the same number of visits, equal
environments before and after the statements at each place, the same places reached, and the same steps in
order, with the lines of the statements at the same places. -/
structure Renumbered (body body' : List Stmt) (result result' : Result α) : Prop where
  iterations : result.iterations = result'.iterations
  inputs : ∀ p p', SamePlace body body' p p' → result.inputs.get? p = result'.inputs.get? p'
  outputs : ∀ p p', SamePlace body body' p p' → result.outputs.get? p = result'.outputs.get? p'
  reached : ∀ p, result.isReached p = true → ∃ p', SamePlace body body' p p' ∧ result'.isReached p' = true
  reached' : ∀ p', result'.isReached p' = true → ∃ p, SamePlace body body' p p' ∧ result.isReached p = true
  steps : List.Forall₂ (Step.Paired (SamePlace body body')) result.steps result'.steps

variable {config : Config} {f f' : FunctionDef}

omit [DecidableEq α] in
/-- What is kept of paired runs differs only in lines. -/
theorem Run.Paired.result {body body' : List Stmt} {run run' : Run α}
    (paired : Run.Paired (SamePlace body body') run run') : Renumbered body body' run.result run'.result := by
  have reached : ∀ {p p'}, SamePlace body body' p p' →
      run.result.isReached p = run'.result.isReached p' := by
    intro p p' place
    exact paired.outputs.contains place
  constructor
  · exact paired.iterations
  · intro p p' place
    exact paired.inputs.values place
  · intro p p' place
    exact paired.outputs.values place
  · intro p found
    obtain ⟨p', place⟩ := paired.outputs.left p found
    exact ⟨p', place, reached place ▸ found⟩
  · intro p' found
    obtain ⟨p, place⟩ := paired.outputs.right p' found
    exact ⟨p, place, (reached place).symm ▸ found⟩
  · exact paired.steps

omit [DecidableEq α] in
/-- Before the first visit, runs from paired entries are paired. -/
theorem Run.paired_initial {entry entry' : Point} (start : R entry entry') :
    Run.Paired R (.initial entry : Run α) (.initial entry') where
  queue := .cons start .nil
  inputs := Table.paired_empty
  outputs := Table.paired_empty
  revisits := Table.paired_empty
  iterations := rfl
  steps := .nil

/-- Runs over paired graphs fail alike or have results that differ only in lines. -/
theorem InStep.runOn {g g' : Graph} (inStep : InStep A (SamePlace f.body f'.body) f f' g g') :
    Agree (Renumbered f.body f'.body) (A.runOn config f g) (A.runOn config f' g') := by
  have entries := inStep.graphs.entry
  unfold Analysis.runOn
  generalize g.entry = first at entries ⊢
  generalize g'.entry = first' at entries ⊢
  cases entries with
  | none =>
    refine .ok ⟨rfl, fun _ _ _ => rfl, fun _ _ _ => rfl, ?_, ?_, .nil⟩
    · intro p found
      cases found
    · intro p' found
      cases found
  | @some entry entry' start =>
    have drained := inStep.drain config start config.maxIterations (Run.paired_initial start)
    dsimp only
    generalize A.drain config f g entry config.maxIterations _ = outcome at drained ⊢
    generalize A.drain config f' g' entry' config.maxIterations _ = outcome' at drained ⊢
    cases drained with
    | error cause => exact .error cause
    | ok final => exact .ok final.result

/-- **Results of an analysis that is blind to lines depend on lines only as names.** -/
theorem LineBlind.run (blind : A.LineBlind) (same : allWithoutLines f.body = allWithoutLines f'.body)
    (distinct : (occurrencesIn f.body).Nodup) (distinct' : (occurrencesIn f'.body).Nodup)
    (variableSets : f.variableSet = f'.variableSet) :
    Agree (Renumbered f.body f'.body) (A.run config f) (A.run config f') := by
  have unique := biUnique_samePlace distinct distinct'
  exact InStep.runOn ⟨blind, unique, SamePlace.withoutLines_eq same, .build unique same, variableSets⟩

omit [DecidableEq α] in
/-- Transfers by rules for right-hand sides are blind to lines. -/
theorem lineBlind_of_dispatch {evaluate : Expr → Env α → α × String}
    (rules : A.transfer = dispatch (assignmentFlow evaluate)) : A.LineBlind := by
  rintro ⟨s⟩ ⟨s'⟩ same
  funext env
  rw [rules]
  cases s <;> cases s' <;> simp [withoutLines] at same
  · obtain ⟨rfl, rfl⟩ := same
    rfl
  all_goals rfl

end Analysis

/-! ## The two analyses -/

open Analysis

/-- **Line numbers are only names.** Let two functions have the same parameters and bodies that differ only
in line numbers, and let no statement occur twice in either body. Under all settings the two runs of the
zero analysis, and those of the interval analysis for every size, fail alike or have results that differ
only in the lines they name. -/
theorem results_keep_under_renumbering (line line' : Nat) (called called' : String)
    (parameters : List String) (body body' : List Stmt) (source source' : Option String)
    (same : allWithoutLines body = allWithoutLines body') (distinct : (occurrencesIn body).Nodup)
    (distinct' : (occurrencesIn body').Nodup) :
    (∀ config, Agree (Renumbered body body')
      (Zero.analysis.run config (.make line called parameters body source))
      (Zero.analysis.run config (.make line' called' parameters body' source'))) ∧
    ∀ size config, Agree (Renumbered body body')
      ((Interval.analysis size).run config (.make line called parameters body source))
      ((Interval.analysis size).run config (.make line' called' parameters body' source')) := by
  have variableSets : (FunctionDef.make line called parameters body source).variableSet =
      (FunctionDef.make line' called' parameters body' source').variableSet := variablesOf_congr same
  constructor
  · intro config
    exact (lineBlind_of_dispatch Zero.transfer_analysis).run same distinct distinct' variableSets
  · intro size config
    exact (lineBlind_of_dispatch (Interval.transfer_analysis size)).run same distinct distinct' variableSets

/-- The loop of the counting function with all its statements on line one. -/
def Concrete.countLoopOnOneLine : Stmt :=
  .loop 1 (.compare (.var "x") .lt (.var "n"))
    [.ifElse 1 (.compare (.var "x") .gt (.int 3)) []
      [.assign 1 "x" (.arith (.var "x") .add (.int 1))]]

/-- Counting from zero on one line: the loop head has the same interval as in the original lines, after
as many visits, and the steps correspond. -/
theorem countUp_on_one_line : ∃ result result',
    (Interval.analysis 500).run ⟨100, .loopHeads, true⟩ Concrete.countUp = .ok result ∧
    (Interval.analysis 500).run ⟨100, .loopHeads, true⟩ (.make 1 "countUp" ["n"]
      [.assign 1 "x" (.int 0), Concrete.countLoopOnOneLine, .ret 1 (.var "x")] none) = .ok result' ∧
    result.iterations = result'.iterations ∧ result.isReached ⟨Concrete.countLoop⟩ = true ∧
    result.outputs.get? ⟨Concrete.countLoop⟩ = result'.outputs.get? ⟨Concrete.countLoopOnOneLine⟩ ∧
    result.steps.length = result'.steps.length := by
  have agree := (results_keep_under_renumbering 1 1 "countUp" "countUp" ["n"] Concrete.countBody
    [.assign 1 "x" (.int 0), Concrete.countLoopOnOneLine, .ret 1 (.var "x")] none none
    (by decide +kernel) (by decide +kernel) (by decide +kernel)).2 500 ⟨100, .loopHeads, true⟩
  obtain ⟨result, ran⟩ : ∃ result,
      (Interval.analysis 500).run ⟨100, .loopHeads, true⟩ Concrete.countUp = .ok result :=
    exists_result_of_isOk (by decide +kernel)
  have reached : (match (Interval.analysis 500).run ⟨100, .loopHeads, true⟩ Concrete.countUp with
      | .ok result => result.isReached ⟨Concrete.countLoop⟩
      | .error _ => false) = true := by decide +kernel
  rw [ran] at reached
  rw [show FunctionDef.make 1 "countUp" ["n"] Concrete.countBody none = Concrete.countUp from rfl, ran] at agree
  obtain ⟨result', ran', renumbered⟩ := agree.exists_ok
  exact ⟨result, result', ran, ran', renumbered.iterations, reached,
    renumbered.outputs _ _ ⟨1, rfl, rfl⟩, renumbered.steps.length_eq⟩

end Dataflow
