import Dataflow.Proofs.Analysis.LeastSolution

/-!
# Points that a result justifies

A run never withdraws an output: a point that nothing arrives at any more is passed over and keeps what
was stored earlier. So every reached point is the entry or follows a reached point (`reached_follows`),
but the edges into it may all have become infeasible since. A result justifies a point when the entry
environment or some edge still lets something through from the final outputs, and the join of all that
arrives is the stored input (`Justified`).

An analysis `Rises` when its edges and transfers are monotone and what loop heads store only goes up.
Then every stored output is still backed by what arrives (`Backed`): outputs only rise, more arrives
from larger outputs, and so no edge becomes infeasible again. Its results justify all they reach
(`Rises.justified`).
-/

set_option autoImplicit false

namespace Dataflow.Analysis

open Env

variable {α : Type} [DecidableEq α]

/-- A result justifies a point: something still arrives there, at the entry or over an edge, and the join
of all that arrives is the stored input. -/
structure Justified (A : Analysis α) (f : FunctionDef) (g : Graph) (result : Result α) (p : Point) :
    Prop where
  feasible : g.entry = some p ∨ ∃ e ∈ g.incoming p, ∃ env, result.outputs.get? e.source = some env ∧
    (A.along e.label env).isSome = true
  input : ∃ env, A.recomputed f g result p = some env ∧ result.inputs.get? p = some env

variable {A : Analysis α} {config : Config} {f : FunctionDef} {g : Graph} {entry : Point}
  {outputs : Table Point (Env α)} {p : Point}

/-! ## What arrives comes from somewhere -/

/-- What arrives over an edge is let through from the output of its source. -/
theorem exists_output_of_arrival {e : Edge} (arrives : (A.arrival outputs e).isSome = true) :
    ∃ env, outputs.get? e.source = some env ∧ (A.along e.label env).isSome = true := by
  unfold arrival at arrives
  split at arrives
  · next env stored => exact ⟨env, stored, arrives⟩
  · cases arrives

/-- What arrives at a point is seeded there or comes over one of its edges. -/
theorem exists_arrival_of_inflow {seed : Option (Env α)} {input : Env α}
    (arrived : A.inflow g outputs seed p = some input) :
    seed.isSome = true ∨ ∃ e ∈ g.incoming p, (A.arrival outputs e).isSome = true := by
  unfold inflow at arrived
  generalize g.incoming p = edges at arrived ⊢
  induction edges generalizing seed with
  | nil => exact Or.inl (by simpa using congrArg Option.isSome arrived)
  | cons e rest ih =>
    rcases ih arrived with joined | ⟨later, listed, arrives⟩
    · cases seed with
      | some env => exact Or.inl rfl
      | none => exact Or.inr ⟨e, List.mem_cons_self, joined⟩
    · exact Or.inr ⟨later, List.mem_cons_of_mem e listed, arrives⟩

/-- What arrives in a run is the entry environment or comes over an edge from a stored output. -/
theorem exists_source_of_arriving {input : Env α} (arrived : A.arriving f g outputs p = some input) :
    g.entry = some p ∨ ∃ e ∈ g.incoming p, ∃ env, outputs.get? e.source = some env ∧
      (A.along e.label env).isSome = true := by
  rcases exists_arrival_of_inflow arrived with seeded | ⟨e, listed, arrives⟩
  · obtain ⟨env, seeded⟩ := Option.isSome_iff_exists.mp seeded
    obtain ⟨entry, isEntry, seeded⟩ := Option.bind_eq_some_iff.mp seeded
    rw [seed?] at seeded
    split at seeded
    · next here => exact Or.inl (here ▸ isEntry)
    · cases seeded
  · exact Or.inr ⟨e, listed, exists_output_of_arrival arrives⟩

/-- A result justifies the points where something still arrives from its outputs. -/
theorem justified_of_recomputed {result : Result α} (ran : A.runOn config f g = .ok result)
    {input : Env α} (arrived : A.recomputed f g result p = some input) : A.Justified f g result p where
  feasible := exists_source_of_arriving arrived
  input := ⟨input, arrived, (stored_of_recomputed ran arrived).1⟩

/-! ## Reached points follow reached points -/

/-- Every point with an output is the entry or follows a point with an output. -/
def Follows (g : Graph) (outputs : Table Point (Env α)) : Prop :=
  ∀ p, (outputs.get? p).isSome = true →
    g.entry = some p ∨ ∃ e ∈ g.incoming p, (outputs.get? e.source).isSome = true

/-- A visit stores an output only where something arrives. -/
theorem Follows.advance (isEntry : g.entry = some entry) {run next : Run α}
    (follows : Follows g run.outputs) (advance : A.Advances config f g entry run next) :
    Follows g next.outputs := by
  obtain ⟨p, rest, -, visited⟩ := advance
  rcases visit_cases visited with ⟨-, -, outputs, -⟩ |
    ⟨input, update, output, arrived, -, -, -, ⟨-, outputs, -⟩ | ⟨-, outputs, -⟩⟩
  · exact outputs ▸ follows
  · exact outputs ▸ follows
  · -- No output is removed, so what followed a stored one still does.
    have kept : ∀ q, (run.outputs.get? q).isSome = true → (next.outputs.get? q).isSome = true := by
      intro q stored
      rw [outputs, Table.get?_set]
      split
      · rfl
      · exact stored
    have before : ∀ q, (g.entry = some q ∨
        ∃ e ∈ g.incoming q, (run.outputs.get? e.source).isSome = true) →
        g.entry = some q ∨ ∃ e ∈ g.incoming q, (next.outputs.get? e.source).isSome = true := by
      rintro q (first | ⟨e, listed, stored⟩)
      · exact Or.inl first
      · exact Or.inr ⟨e, listed, kept e.source stored⟩
    intro q stored
    apply before
    rw [outputs, Table.get?_set] at stored
    split at stored
    · next here =>
      subst here
      rw [inflow_seed? A f isEntry] at arrived
      rcases exists_source_of_arriving arrived with first | ⟨e, listed, env, source, -⟩
      · exact Or.inl first
      · exact Or.inr ⟨e, listed, by simp [source]⟩
    · exact follows q stored

/-- At every moment of a run the points with outputs follow one another from the entry. -/
theorem follows_of_advances (isEntry : g.entry = some entry) {run : Run α}
    (advances : Relation.ReflTransGen (A.Advances config f g entry) (.initial entry) run) :
    Follows g run.outputs := by
  induction advances with
  | refl =>
    intro p stored
    cases stored
  | tail _ advance ih => exact ih.advance isEntry advance

/-- **Every reached point is the entry or follows a reached point.** -/
theorem reached_follows {result : Result α} (ran : A.runOn config f g = .ok result)
    (reached : result.isReached p = true) :
    g.entry = some p ∨ ∃ e ∈ g.incoming p, result.isReached e.source = true := by
  rcases runOn_eq_ok ran with ⟨-, rfl⟩ | ⟨entry, final, isEntry, advances, -, rfl⟩
  · cases reached
  · exact follows_of_advances isEntry advances p reached

/-! ## Analyses that rise -/

/-- The analysis with the same rules whose loop heads only join. -/
def joining (A : Analysis α) : Analysis α :=
  { A with widen := joinWidening A.lattice }

omit [DecidableEq α] in
theorem transfer_joining (A : Analysis α) : A.joining.transfer = A.transfer := rfl

omit [DecidableEq α] in
/-- A preserved property of values is preserved when loop heads only join. -/
theorem Preserves.joining {V : α → Prop} (preserves : A.Preserves V) : A.joining.Preserves V where
  names := ⟨preserves.names.transfer, preserves.names.narrow⟩
  top := preserves.top
  join := preserves.join
  widen := preserves.join
  transfer := preserves.transfer
  narrow := preserves.narrow

/-- Edges and transfers are monotone on environments with a property that runs keep, and widening is
above the last value. -/
structure Rises (A : Analysis α) (f : FunctionDef) (g : Graph) (P : Env α → Prop) : Prop where
  kept : A.Kept f g P
  mono : A.joining.Monotonic f g P
  widen : ∀ a b, A.lattice.atMost a (A.widen a b).1 = true

variable {P : Env α → Prop} {family : Table Point (Env α)}

/-- More is asked for from outputs that cover the given ones: widening plays no part in it. -/
theorem Rises.demanded (rises : A.Rises f g P) (all : OnAll P outputs)
    (covers : CoveredBy A.lattice outputs family) (p : Point) :
    Covered A.lattice (A.demanded f g outputs p) (A.demanded f g family p) :=
  rises.mono.demanded all covers p

/-- Every output is backed by what arrives now: its equation asks for something, and for at least the
output where loop heads do not add to it. -/
def Backed (A : Analysis α) (f : FunctionDef) (g : Graph) (outputs : Table Point (Env α)) : Prop :=
  ∀ p env, outputs.get? p = some env → ∃ asked, A.demanded f g outputs p = some asked ∧
    (g.isLoopHead p = false → env.Below A.lattice asked)

/-- What a visit settles on is above the last output. -/
theorem Rises.covered_settled (rises : A.Rises f g P) (backed : A.Backed f g outputs)
    {new output : Env α} (asked : A.demanded f g outputs p = some new)
    (settled : Settled A g p (outputs.get? p) new output) :
    Covered A.lattice (outputs.get? p) (some output) := by
  intro env stored
  refine ⟨output, rfl, ?_⟩
  obtain ⟨asked', again, below⟩ := backed p env stored
  -- A replaced output need not be above the last one in general; here the last one is backed.
  cases settled with
  | replaced first =>
    have plain : g.isLoopHead p = false := by
      refine Bool.eq_false_iff.mpr fun head => ?_
      rw [first head] at stored
      cases stored
    rw [asked] at again
    cases again
    exact below plain
  | joined _ found =>
    rw [found] at stored
    cases stored
    exact below_join_left rises.mono.laws _ _
  | widened _ found =>
    rw [found] at stored
    cases stored
    exact below_combine_left fun _ a b _ _ => rises.widen a b

/-- Storing what a visit settles on keeps every output backed. -/
theorem Rises.backed_set (rises : A.Rises f g P) (all : OnAll P outputs)
    (backed : A.Backed f g outputs) {new output : Env α}
    (asked : A.demanded f g outputs p = some new)
    (settled : Settled A g p (outputs.get? p) new output) :
    A.Backed f g (outputs.set p output) := by
  have covers : CoveredBy A.lattice outputs (outputs.set p output) :=
    coveredBy_set (rises.covered_settled backed asked settled)
  intro q env stored
  rw [Table.get?_set] at stored
  split at stored
  · next here =>
    subst here
    cases stored
    obtain ⟨more, asked', below⟩ := rises.demanded all covers q new asked
    refine ⟨more, asked', fun plain => ?_⟩
    cases settled with
    | replaced => exact below
    | joined head _ => simp [plain] at head
    | widened head _ => simp [plain] at head
  · obtain ⟨last, asked', below⟩ := backed q env stored
    obtain ⟨more, asked'', rise⟩ := rises.demanded all covers q last asked'
    exact ⟨more, asked'', fun plain => (below plain).trans rises.mono.laws rise⟩

/-- **A visit keeps every output backed.** -/
theorem Rises.backed_advance (rises : A.Rises f g P) (isEntry : g.entry = some entry)
    {run next : Run α} (keeps : Keeps P g run) (backed : A.Backed f g run.outputs)
    (advance : A.Advances config f g entry run next) : A.Backed f g next.outputs := by
  obtain ⟨p, rest, -, visited⟩ := advance
  rcases visit_cases visited with ⟨-, -, outputs, -⟩ |
    ⟨input, update, output, arrived, transfer, settled, -, ⟨-, outputs, -⟩ | ⟨-, outputs, -⟩⟩
  · exact outputs ▸ backed
  · exact outputs ▸ backed
  · rw [inflow_seed? A f isEntry] at arrived
    exact outputs ▸ rises.backed_set keeps.outputs backed (demanded_of_arriving arrived transfer) settled

/-- Every output is backed at every moment of a run. -/
theorem Rises.backed (rises : A.Rises f g P) (isEntry : g.entry = some entry) {run : Run α}
    (advances : Relation.ReflTransGen (A.Advances config f g entry) (.initial entry) run) :
    A.Backed f g run.outputs := by
  induction advances with
  | refl =>
    intro p env stored
    cases stored
  | tail earlier advance ih =>
    exact rises.backed_advance isEntry (rises.kept.advances isEntry earlier) ih advance

/-- **A result of an analysis that rises justifies every point it reaches.** -/
theorem Rises.justified (rises : A.Rises f g P) {result : Result α}
    (ran : A.runOn config f g = .ok result) (reached : result.isReached p = true) :
    A.Justified f g result p := by
  have backed : A.Backed f g result.outputs := by
    rcases runOn_eq_ok ran with ⟨-, rfl⟩ | ⟨entry, final, isEntry, advances, -, rfl⟩
    · intro q env stored
      cases stored
    · exact rises.backed isEntry advances
  obtain ⟨env, stored⟩ := Option.isSome_iff_exists.mp reached
  obtain ⟨asked, demanded, -⟩ := backed p env stored
  obtain ⟨input, update, arrived, -, -⟩ := demanded_eq_some demanded
  exact justified_of_recomputed ran arrived

end Dataflow.Analysis
