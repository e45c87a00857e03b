import Dataflow.Analysis.Basic
import Dataflow.Graph.Build
import Dataflow.Table

/-!
# Running an analysis

A run keeps a first-in-first-out queue of points. A visit joins the outputs of the predecessors, each
narrowed by its edge, applies the transfer and queues the successors when the output changed. A
revisited loop head combines its last output with the new one, by widening or joining. The run ends
when the queue is empty, or without a result when it runs out of visits. A visited point without a
feasible edge is passed over and keeps what it had.
-/

set_option autoImplicit false

namespace Dataflow

/-- What a recorded step did. -/
inductive StepKind where
  /-- The transfer at a point. -/
  | transfer
  /-- The narrowing of an edge into a point. -/
  | condition (fromLine : Nat) (branch : Branch) (feasible : Bool)
  /-- The widening of a variable at a loop head. -/
  | widening (name : String)
deriving DecidableEq

/-- One application of a rule. -/
structure Step where
  iteration : Nat
  line : Nat
  kind : StepKind
  rule : String
deriving DecidableEq

/-- The environments before and after each reached point, with the number of visits and the recorded
steps. -/
structure Result (α : Type) where
  inputs : Table Point (Env α)
  outputs : Table Point (Env α)
  iterations : Nat
  steps : List Step

namespace Result

variable {α : Type}

/-- The result without reached points. -/
def empty : Result α := ⟨.empty, .empty, 0, []⟩

/-- Whether a point was reached. -/
def isReached (r : Result α) (p : Point) : Bool := r.outputs.contains p

/-- The reached points and their outputs, ordered by line. -/
def environments (r : Result α) : List (Point × Env α) :=
  r.outputs.entries.mergeSort fun a b => decide (a.1.line ≤ b.1.line)

/-- The output of the reached point on a line. -/
def atLine? (r : Result α) (line : Nat) : Option (Env α) :=
  (r.outputs.entries.find? fun entry => entry.1.line = line).map (·.2)

/-- The input of the reached point on a line. -/
def inputAtLine? (r : Result α) (line : Nat) : Option (Env α) :=
  (r.inputs.entries.find? fun entry => entry.1.line = line).map (·.2)

end Result

namespace Analysis

variable {α : Type} [DecidableEq α]

/-- The environment that an edge lets through from its source. -/
def along (A : Analysis α) (label : Label) (env : Env α) : Option (Env α) :=
  if label.isConditional then
    match (A.narrow label.condition env).bindings with
    | some bindings => env.refine? A.lattice bindings
    | none => none
  else some env

/-- Two environments that arrive at a point, joined. -/
def joinArrivals (A : Analysis α) : Option (Env α) → Option (Env α) → Option (Env α)
  | some env, some other => some (env.join A.lattice other)
  | some env, none => some env
  | none, arrival => arrival

/-- What arrives over an edge from the outputs so far. -/
def arrival (A : Analysis α) (outputs : Table Point (Env α)) (e : Edge) : Option (Env α) :=
  match outputs.get? e.source with
  | some env => A.along e.label env
  | none => none

/-- The join of `seed` and what arrives over the edges into a point. -/
def inflow (A : Analysis α) (g : Graph) (outputs : Table Point (Env α)) (seed : Option (Env α))
    (p : Point) : Option (Env α) :=
  (g.incoming p).foldl (fun joined e => A.joinArrivals joined (A.arrival outputs e)) seed

/-- The recorded step of an edge: conditional edges whose source was reached have one. -/
def edgeStep? (A : Analysis α) (outputs : Table Point (Env α)) (iteration : Nat) (e : Edge) :
    Option Step :=
  match outputs.get? e.source with
  | some env =>
    if e.label.isConditional then
      some ⟨iteration, e.target.line,
        .condition e.source.line e.label.branch (A.along e.label env).isSome,
        (A.narrow e.label.condition env).rule⟩
    else none
  | none => none

/-- The last output of a loop head combined with the new one by the widening of each variable. -/
def widenEnv (A : Analysis α) (last new : Env α) : Env α :=
  last.combine (fun _ a b => (A.widen a b).1) new

/-- The recorded steps of a widening: one for each variable that both environments bind. -/
def widenSteps (A : Analysis α) (iteration line : Nat) (last new : Env α) : List Step :=
  new.entries.filterMap fun binding =>
    (NameMap.get? last binding.1).map fun value =>
      ⟨iteration, line, .widening binding.1, (A.widen value binding.2).2⟩

/-- The state of a run. -/
structure Run (α : Type) where
  queue : List Point
  inputs : Table Point (Env α)
  outputs : Table Point (Env α)
  /-- How often each loop head was visited after its first output. -/
  revisits : Table Point Nat
  iterations : Nat
  steps : Array Step

/-- A queue with the points that are not in it yet. -/
def enqueue (queue : List Point) : List Point → List Point
  | [] => queue
  | p :: rest => if p ∈ queue then enqueue queue rest else enqueue (queue ++ [p]) rest

/-- How a point's new output is combined with its last one. -/
inductive Settling where
  /-- The new output counts. -/
  | replace
  /-- A loop head joins, on the given revisit. -/
  | join (revisit : Nat)
  /-- A loop head widens, on the given revisit. -/
  | widen (revisit : Nat)

/-- How the output of a point settles in a state of the run. -/
def settling (config : Config) (g : Graph) (run : Run α) (p : Point) : Settling :=
  if g.isLoopHead p && run.outputs.contains p then
    let revisit := (run.revisits.get? p).getD 0 + 1
    if config.strategy.widens revisit then .widen revisit else .join revisit
  else .replace

/-- The output of a point after settling. -/
def settle (A : Analysis α) (how : Settling) (last : Option (Env α)) (new : Env α) : Env α :=
  match how, last with
  | .widen _, some last => A.widenEnv last new
  | .join _, some last => last.join A.lattice new
  | _, _ => new

/-- The revisit a settling counts. -/
def Settling.revisit? : Settling → Option Nat
  | replace => none
  | join revisit => some revisit
  | widen revisit => some revisit

/-- The state with the input and output of a visited point stored, and its successors queued when the
output changed. -/
def store (g : Graph) (run : Run α) (p : Point) (input output : Env α) : Run α :=
  let run := { run with inputs := run.inputs.set p input }
  if run.outputs.get? p = some output then run
  else { run with
    outputs := run.outputs.set p output
    queue := enqueue run.queue (g.successors p) }

/-- The state with more recorded steps, when steps are recorded. -/
def Run.record (run : Run α) (config : Config) (steps : List Step) : Run α :=
  if config.recordSteps then { run with steps := run.steps ++ steps } else run

/-- The environment seeded at a point: the entry starts with every variable at the top value. -/
def seed? (A : Analysis α) (f : FunctionDef) (entry p : Point) : Option (Env α) :=
  if p = entry then some (Env.uniform f.variableSet.toList A.lattice.top) else none

/-- Visits a point that was taken from the queue. -/
def visit (A : Analysis α) (config : Config) (f : FunctionDef) (g : Graph) (entry : Point)
    (run : Run α) (p : Point) : Except AnalysisError (Run α) :=
  let arrivals := (g.incoming p).filterMap (A.edgeStep? run.outputs run.iterations)
  match A.inflow g run.outputs (A.seed? f entry p) p with
  | none => .ok (run.record config arrivals)
  | some input =>
    match A.transfer p input with
    | .error cause => .error cause
    | .ok update =>
      let new := input.updated update.bindings
      let how := settling config g run p
      let last := run.outputs.get? p
      let widened := match how, last with
        | .widen _, some last => A.widenSteps run.iterations p.line last new
        | _, _ => []
      let recorded := run.record config
        (arrivals ++ [⟨run.iterations, p.line, .transfer, update.rule⟩] ++ widened)
      let counted := match how.revisit? with
        | some revisit => { recorded with revisits := recorded.revisits.set p revisit }
        | none => recorded
      .ok (store g counted p input (A.settle how last new))

/-- Visits points until the queue is empty; `budget` visits are left. -/
def drain (A : Analysis α) (config : Config) (f : FunctionDef) (g : Graph) (entry : Point) :
    Nat → Run α → Except AnalysisError (Run α)
  | budget, run =>
    match run.queue, budget with
    | [], _ => .ok run
    | _ :: _, 0 => .error (.iterationLimit config.maxIterations)
    | p :: rest, left + 1 =>
      match A.visit config f g entry
          { run with queue := rest, iterations := run.iterations + 1 } p with
      | .error cause => .error cause
      | .ok after => drain A config f g entry left after

/-- The state before the first visit. -/
def Run.initial (entry : Point) : Run α := ⟨[entry], .empty, .empty, .empty, 0, #[]⟩

/-- What is kept of a finished run. -/
def Run.result (run : Run α) : Result α :=
  ⟨run.inputs, run.outputs, run.iterations, run.steps.toList⟩

/-- Runs an analysis of a function over a graph. -/
def runOn (A : Analysis α) (config : Config) (f : FunctionDef) (g : Graph) :
    Except AnalysisError (Result α) :=
  match g.entry with
  | none => .ok .empty
  | some entry =>
    match A.drain config f g entry config.maxIterations (.initial entry) with
    | .error cause => .error cause
    | .ok run => .ok run.result

/-- Runs an analysis of a function over its own graph. -/
def run (A : Analysis α) (config : Config) (f : FunctionDef) : Except AnalysisError (Result α) :=
  A.runOn config f (Graph.build f)

end Analysis

end Dataflow
