import Dataflow.Proofs.Analysis.Run
import Dataflow.Proofs.Concrete.Execution
import Dataflow.Proofs.Env.Lookup
import Dataflow.Zero.Analysis
import Mathlib.Data.List.Basic

/-!
# Results are locally consistent

A run stops only when every point agrees with its predecessors: the input of a point, computed once
more from the final outputs, is the stored one, and the stored output is what the transfer makes of
it, or something above that at a loop head (`runOn_locally_consistent`).

The invariant of the run is that every point outside the queue is consistent with the outputs stored
so far. A visit settles its own point. It changes one output, and the only points whose input reads
that output are the successors, which are then in the queue.
-/

set_option autoImplicit false

namespace Dataflow.Analysis

variable {α : Type} [DecidableEq α]

/-! ## Inputs depend on the predecessors only -/

/-- The input of a point reads the outputs of the sources of its edges. -/
theorem inflow_congr {A : Analysis α} {g : Graph} {outputs outputs' : Table Point (Env α)}
    {seed : Option (Env α)} {p : Point}
    (agree : ∀ e ∈ g.edges, e.target = p → outputs.get? e.source = outputs'.get? e.source) :
    A.inflow g outputs seed p = A.inflow g outputs' seed p := by
  unfold inflow
  refine List.foldl_ext _ _ seed fun joined e found => ?_
  obtain ⟨edge, target⟩ := mem_incoming.mp found
  rw [arrival, arrival, agree e edge target]

/-- A new output changes the inputs of successors only. -/
theorem inflow_set_of_not_mem_successors {A : Analysis α} {g : Graph}
    {outputs : Table Point (Env α)} {seed : Option (Env α)} {p q : Point} {output : Env α}
    (apart : q ∉ g.successors p) :
    A.inflow g (outputs.set p output) seed q = A.inflow g outputs seed q := by
  refine inflow_congr fun e found target => ?_
  rw [Table.get?_set, if_neg]
  intro source
  exact apart (mem_successors.mpr ⟨e, found, source, target⟩)

/-- Nothing but the seed arrives before any point has an output. -/
theorem inflow_empty (A : Analysis α) (g : Graph) (seed : Option (Env α)) (p : Point) :
    A.inflow g .empty seed p = seed := by
  unfold inflow
  induction g.incoming p with
  | nil => rfl
  | cons e rest ih =>
    have skipped : A.joinArrivals seed (A.arrival .empty e) = seed := by cases seed <;> rfl
    rw [List.foldl_cons, skipped, ih]

/-! ## The invariant -/

/-- What is stored at a point agrees with the outputs of its predecessors: when something arrives,
that is the stored input, and the stored output is settled from the transfer of it. -/
def ConsistentAt (A : Analysis α) (f : FunctionDef) (g : Graph) (entry : Point) (run : Run α)
    (p : Point) : Prop :=
  ∀ input, A.inflow g run.outputs (A.seed? f entry p) p = some input →
    run.inputs.get? p = some input ∧
      ∃ update last output, A.transfer p input = .ok update ∧ run.outputs.get? p = some output ∧
        Settled A g p last (input.updated update.bindings) output

/-- Every point outside the queue is consistent. -/
def Consistent (A : Analysis α) (f : FunctionDef) (g : Graph) (entry : Point) (run : Run α) : Prop :=
  ∀ p, p ∉ run.queue → A.ConsistentAt f g entry run p

variable {A : Analysis α} {config : Config} {f : FunctionDef} {g : Graph} {entry : Point}

/-- Before the first visit only the entry has an input, and it is in the queue. -/
theorem consistent_initial : A.Consistent f g entry (.initial entry) := by
  intro p outside input arrived
  have other : p ≠ entry := by simpa [Run.initial] using outside
  have nothing : A.inflow g (Run.initial entry : Run α).outputs (A.seed? f entry p) p = none := by
    rw [seed?, if_neg other]
    exact inflow_empty A g none p
  rw [nothing] at arrived
  cases arrived

/-- **A visit keeps the points outside the queue consistent.** -/
theorem Consistent.advance {run next : Run α} (consistent : A.Consistent f g entry run)
    (advance : A.Advances config f g entry run next) : A.Consistent f g entry next := by
  obtain ⟨p, rest, queue, visited⟩ := advance
  intro q outside
  -- A point that is neither visited nor queued was consistent before.
  have before : q ≠ p → q ∉ rest → A.ConsistentAt f g entry run q := by
    intro other absent
    refine consistent q ?_
    rw [queue]
    exact List.not_mem_cons_of_ne_of_not_mem other absent
  rcases visit_cases visited with ⟨nothing, inputs, outputs, same⟩ |
    ⟨input, update, output, arrived, transferred, settled, inputs, changes⟩
  · -- Nothing arrived at the visited point, and nothing was stored.
    rw [same] at outside
    intro input arrived
    rw [outputs] at arrived
    by_cases here : q = p
    · rw [here, nothing] at arrived
      cases arrived
    · rw [inputs, outputs]
      exact before here outside input arrived
  · rcases changes with ⟨stays, outputs, same⟩ | ⟨-, outputs, same⟩
    · -- The output is the last one, so only the visited point has a new input.
      rw [same] at outside
      intro input' arrived'
      rw [outputs] at arrived' ⊢
      rw [inputs, Table.get?_set]
      by_cases here : q = p
      · subst here
        rw [arrived] at arrived'
        cases arrived'
        exact ⟨if_pos rfl, update, _, output, transferred, stays, settled⟩
      · rw [if_neg here]
        exact before here outside input' arrived'
    · -- The output changed; a point outside the queue does not read it.
      rw [same, mem_enqueue, not_or] at outside
      intro input' arrived'
      rw [outputs, inflow_set_of_not_mem_successors outside.2] at arrived'
      rw [inputs, outputs, Table.get?_set, Table.get?_set]
      by_cases here : q = p
      · subst here
        rw [arrived] at arrived'
        cases arrived'
        exact ⟨if_pos rfl, update, _, output, transferred, if_pos rfl, settled⟩
      · rw [if_neg here, if_neg here]
        exact before here outside.1 input' arrived'

/-- Every point is consistent when the queue is empty. -/
theorem consistent_of_advances {run : Run α}
    (advances : Relation.ReflTransGen (A.Advances config f g entry) (.initial entry) run) :
    A.Consistent f g entry run := by
  induction advances with
  | refl => exact consistent_initial
  | tail _ advance ih => exact ih.advance advance

/-! ## Results -/

/-- The input of a point computed from the outputs of a result: the entry environment at the entry,
joined with what arrives over each edge in order. -/
def recomputed (A : Analysis α) (f : FunctionDef) (g : Graph) (result : Result α) (p : Point) :
    Option (Env α) :=
  A.inflow g result.outputs (g.entry.bind fun entry => A.seed? f entry p) p

/-- What a result stores at a point where something arrives. -/
theorem stored_of_recomputed {result : Result α} (ran : A.runOn config f g = .ok result) {p : Point}
    {input : Env α} (arrived : A.recomputed f g result p = some input) :
    result.inputs.get? p = some input ∧
      ∃ update last output, A.transfer p input = .ok update ∧ result.outputs.get? p = some output ∧
        Settled A g p last (input.updated update.bindings) output := by
  rcases runOn_eq_ok ran with ⟨absent, rfl⟩ | ⟨entry, final, present, advances, empty, rfl⟩
  · rw [recomputed, absent] at arrived
    have nothing := arrived.symm.trans (inflow_empty A g none p)
    cases nothing
  · rw [recomputed, present] at arrived
    exact consistent_of_advances advances p (by simp [empty]) input arrived

/-- An operator gives values above both of its arguments. -/
def UpperBound (L : ValueLattice α) (op : α → α → α) : Prop :=
  ∀ a b, L.atMost a (op a b) = true ∧ L.atMost b (op a b) = true

/-- A combination with an upper bound binds every name of the second side to a value above its
own. -/
theorem atMost_combine {L : ValueLattice α} {op : α → α → α} (bound : UpperBound L op)
    {last new : Env α} {name : String} {value : α} (found : new.get? name = some value) :
    ∃ above, (last.combine (fun _ => op) new).get? name = some above ∧ L.atMost value above = true := by
  rw [Env.get?_combine, found]
  cases last.get? name with
  | none => exact ⟨value, rfl, by simp [ValueLattice.atMost]⟩
  | some old => exact ⟨op old value, rfl, (bound old value).2⟩

/-- **A run stops only at a locally consistent solution.** Where the input of a point, computed from
the final outputs, is some environment, the point is reached, that environment is its stored input,
and the stored output is the updated input, or at a loop head binds every name of it to a value above,
provided join and widening are upper bounds. -/
theorem runOn_locally_consistent (A : Analysis α) (config : Config) (f : FunctionDef) (g : Graph)
    (result : Result α) (ran : A.runOn config f g = .ok result) (p : Point) (input : Env α)
    (arrived : A.recomputed f g result p = some input) :
    result.isReached p = true ∧ result.inputs.get? p = some input ∧
      ∃ update, A.transfer p input = .ok update ∧
        (g.isLoopHead p = false →
          result.outputs.get? p = some (input.updated update.bindings)) ∧
        (g.isLoopHead p = true → UpperBound A.lattice A.lattice.join →
          UpperBound A.lattice (fun last new => (A.widen last new).1) →
          ∃ output, result.outputs.get? p = some output ∧
            ∀ name value, (input.updated update.bindings).get? name = some value →
              ∃ above, output.get? name = some above ∧ A.lattice.atMost value above = true) := by
  obtain ⟨stored, update, last, output, transferred, reached, settled⟩ :=
    stored_of_recomputed ran arrived
  refine ⟨by simp [Result.isReached, Table.contains, reached], stored, update, transferred, ?_, ?_⟩
  · intro plain
    rw [reached]
    cases settled with
    | replaced => rfl
    | joined head _ => simp [plain] at head
    | widened head _ => simp [plain] at head
  · intro _ join widen
    refine ⟨output, reached, fun name value found => ?_⟩
    cases settled with
    | replaced => exact ⟨value, found, by simp [ValueLattice.atMost]⟩
    | joined _ _ =>
      rw [Env.join_eq_combine]
      exact atMost_combine join found
    | widened _ _ => exact atMost_combine widen found

/-- Joins of the zero lattice are upper bounds. -/
theorem upperBound_zero_join : UpperBound Zero.lattice Zero.lattice.join := by
  intro a b
  cases a <;> cases b <;> exact ⟨rfl, rfl⟩

open Concrete in
/-- The counting loop under the zero analysis: something arrives at the loop head, it is the stored
input, and the stored output binds every name to a value above the input's. -/
theorem countLoop_locally_consistent : ∃ result input output,
    Zero.analysis.runOn .standard countUp (Graph.build countUp) = .ok result ∧
    Zero.analysis.recomputed countUp (Graph.build countUp) result ⟨countLoop⟩ = some input ∧
    (Graph.build countUp).isLoopHead ⟨countLoop⟩ = true ∧
    result.inputs.get? ⟨countLoop⟩ = some input ∧ result.outputs.get? ⟨countLoop⟩ = some output ∧
    ∀ name value, input.get? name = some value →
      ∃ above, output.get? name = some above ∧ Zero.lattice.atMost value above = true := by
  obtain ⟨result, ran⟩ : ∃ result,
      Zero.analysis.runOn .standard countUp (Graph.build countUp) = .ok result :=
    exists_result_of_isOk (by decide +kernel)
  have arrives : (match Zero.analysis.runOn .standard countUp (Graph.build countUp) with
      | .ok result =>
        (Zero.analysis.recomputed countUp (Graph.build countUp) result ⟨countLoop⟩).isSome
      | .error _ => false) = true := by decide +kernel
  rw [ran] at arrives
  obtain ⟨input, arrived⟩ := Option.isSome_iff_exists.mp arrives
  have head : (Graph.build countUp).isLoopHead ⟨countLoop⟩ = true := by decide +kernel
  obtain ⟨-, stored, update, transferred, -, atHead⟩ :=
    runOn_locally_consistent _ _ _ _ result ran ⟨countLoop⟩ input arrived
  obtain ⟨output, reached, above⟩ := atHead head upperBound_zero_join upperBound_zero_join
  cases transferred
  exact ⟨result, input, output, ran, arrived, head, stored, reached, above⟩

end Dataflow.Analysis
