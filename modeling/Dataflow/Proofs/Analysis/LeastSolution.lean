import Dataflow.Proofs.Analysis.Values
import Dataflow.Proofs.Env.Order
import Dataflow.Proofs.Graph.Descent

/-!
# Least solutions

The equations of a graph ask of every point that its output is the transfer of what arrives there.
A `Monotonic` analysis has monotone edges and transfers and a widening that only joins. Its runs then
climb: every stored output is at most what its equation asks for (`Ascends`), so that the last output of
a loop head is lost in the join with the new one, whatever the strategy.

Hence a result solves the equations (`Monotonic.isSolution`), is below every family of environments that
is closed under them (`Monotonic.coveredBy`), and does not depend on the settings of the run
(`Monotonic.run_alike`). Nothing is assumed of the environments above: the property `P` on which the
analysis is monotone is only asked of the smaller side.
-/

set_option autoImplicit false

namespace Dataflow.Analysis

open Env

variable {α : Type} [DecidableEq α]

/-! ## The equations -/

/-- The environment after the statement at a point. -/
def transferred (A : Analysis α) (p : Point) (input : Env α) : Option (Env α) :=
  match A.transfer p input with
  | .ok update => some (input.updated update.bindings)
  | .error _ => none

/-- What arrives at a point from given outputs: the entry environment at the entry, joined with what
the edges into the point let through. -/
def arriving (A : Analysis α) (f : FunctionDef) (g : Graph) (outputs : Table Point (Env α))
    (p : Point) : Option (Env α) :=
  A.inflow g outputs (g.entry.bind fun entry => A.seed? f entry p) p

/-- What the equation of a point asks for: the transfer of what arrives there. -/
def demanded (A : Analysis α) (f : FunctionDef) (g : Graph) (outputs : Table Point (Env α))
    (p : Point) : Option (Env α) :=
  (A.arriving f g outputs p).bind (A.transferred p)

/-- The equation of every point holds: it has the output that is asked for, and none when nothing
is. -/
def IsSolution (A : Analysis α) (f : FunctionDef) (g : Graph) (outputs : Table Point (Env α)) : Prop :=
  ∀ p, outputs.get? p = A.demanded f g outputs p

/-- Every point has something above what its equation asks for. -/
def IsClosed (A : Analysis α) (f : FunctionDef) (g : Graph) (family : Table Point (Env α)) : Prop :=
  ∀ p asked, A.demanded f g family p = some asked →
    ∃ env, family.get? p = some env ∧ asked.atMost A.lattice env = true

section Equations

variable {A : Analysis α} {f : FunctionDef} {g : Graph} {outputs : Table Point (Env α)} {p : Point}
  {input : Env α}

/-- Only the entry and the targets of edges have arrivals. -/
theorem visitable_of_arriving (arrived : A.arriving f g outputs p = some input) : g.Visitable p := by
  cases edges : g.incoming p with
  | cons e rest =>
    have found : e ∈ g.incoming p := edges ▸ List.mem_cons_self
    exact Or.inr ⟨e, mem_incoming.mp found⟩
  | nil =>
    -- Without edges only the seed arrives.
    rw [arriving, inflow, edges, List.foldl_nil] at arrived
    obtain ⟨entry, isEntry, seeded⟩ := Option.bind_eq_some_iff.mp arrived
    rw [seed?] at seeded
    split at seeded
    · next here => exact Or.inl (here ▸ isEntry)
    · cases seeded

/-- From a known entry, what arrives is the join that a visit computes. -/
theorem inflow_seed? (A : Analysis α) (f : FunctionDef) {entry : Point}
    (isEntry : g.entry = some entry) (outputs : Table Point (Env α)) (p : Point) :
    A.inflow g outputs (A.seed? f entry p) p = A.arriving f g outputs p := by
  rw [arriving, isEntry, Option.bind_some]

theorem demanded_eq_some {asked : Env α} (demanded : A.demanded f g outputs p = some asked) :
    ∃ input update, A.arriving f g outputs p = some input ∧ A.transfer p input = .ok update ∧
      asked = input.updated update.bindings := by
  obtain ⟨input, arrived, answer⟩ := Option.bind_eq_some_iff.mp demanded
  unfold transferred at answer
  split at answer
  · next update transfer =>
    cases answer
    exact ⟨input, update, arrived, transfer, rfl⟩
  · cases answer

theorem demanded_of_arriving {update : Update α} (arrived : A.arriving f g outputs p = some input)
    (transfer : A.transfer p input = .ok update) :
    A.demanded f g outputs p = some (input.updated update.bindings) := by
  rw [demanded, arrived, Option.bind_some, transferred, transfer]

/-- Whether a family has something above what the equation of a point asks for. -/
def closedAt (A : Analysis α) (f : FunctionDef) (g : Graph) (family : Table Point (Env α))
    (p : Point) : Bool :=
  match A.demanded f g family p, family.get? p with
  | some asked, some env => asked.atMost A.lattice env
  | some _, none => false
  | none, _ => true

/-- It is enough to check the points of a function's graph. -/
theorem isClosed_of_points {family : Table Point (Env α)}
    (closed : (Graph.build f).points.all (A.closedAt f (Graph.build f) family) = true) :
    A.IsClosed f (Graph.build f) family := by
  intro p asked demanded
  obtain ⟨input, update, arrived, -, -⟩ := demanded_eq_some demanded
  have occurs := Graph.mem_occurrencesIn_of_visitable (visitable_of_arriving arrived)
  have here := List.all_eq_true.mp closed p (Graph.mem_points_of_occurrence occurs)
  rw [closedAt, demanded] at here
  cases stored : family.get? p with
  | none =>
    rw [stored] at here
    cases here
  | some env =>
    rw [stored] at here
    exact ⟨env, rfl, here⟩

end Equations

/-! ## Monotone analyses -/

/-- The parts of an analysis are monotone where the smaller environment has the property `P`, which
runs keep. Widening only joins and no transfer fails. -/
structure Monotonic (A : Analysis α) (f : FunctionDef) (g : Graph) (P : Env α → Prop) : Prop where
  kept : A.Kept f g P
  /-- Environments with the property do not bind a name to bottom. -/
  proper : ∀ {env : Env α}, P env → env.All (· ≠ A.lattice.bottom)
  laws : A.lattice.JoinLaws
  widen : ∀ a b, (A.widen a b).1 = A.lattice.join a b
  total : ∀ p env, ∃ update, A.transfer p env = .ok update
  along : ∀ e ∈ g.edges, ∀ {env other : Env α}, P env → env.Below A.lattice other →
    Covered A.lattice (A.along e.label env) (A.along e.label other)
  transfer : ∀ {p : Point}, g.Visitable p → ∀ {env other : Env α} {update update' : Update α},
    P env → env.Below A.lattice other → A.transfer p env = .ok update →
    A.transfer p other = .ok update' →
    (env.updated update.bindings).Below A.lattice (other.updated update'.bindings)

/-- A transfer by rules for right-hand sides is monotone when the rules are. -/
theorem below_of_dispatch {L : ValueLattice α} {evaluate : Expr → Env α → α × String} {p : Point}
    {env other : Env α} {update update' : Update α}
    (rises : ∀ line target value, p.statement = .assign line target value →
      L.atMost (evaluate value env).1 (evaluate value other).1 = true) (below : env.Below L other)
    (transferred : dispatch (assignmentFlow evaluate) p env = .ok update)
    (transferred' : dispatch (assignmentFlow evaluate) p other = .ok update') :
    (env.updated update.bindings).Below L (other.updated update'.bindings) := by
  rcases dispatch_cases transferred with ⟨line, target, value, statement, bindings⟩ |
    ⟨plain, bindings⟩
  · rcases dispatch_cases transferred' with ⟨_, _, _, statement', bindings'⟩ | ⟨plain, -⟩
    · cases statement.symm.trans statement'
      have le := rises line target value statement
      rw [bindings, bindings']
      refine below.updated (fun name a found => ?_) fun name unbound => ?_
      · rw [NameMap.get?_ofList_singleton] at found ⊢
        split at found
        · next here =>
          cases found
          exact ⟨_, if_pos here, le⟩
        · cases found
      · rw [NameMap.get?_ofList_singleton] at unbound ⊢
        split at unbound
        · cases unbound
        · next elsewhere => exact if_neg elsewhere
    · exact absurd statement (plain line target value)
  · rcases dispatch_cases transferred' with ⟨line, target, value, statement, -⟩ | ⟨-, bindings'⟩
    · exact absurd statement (plain line target value)
    · rw [bindings, bindings']
      exact below.updated (below_refl L _) fun _ => id

/-- Every output of the first table is covered by the second. -/
def CoveredBy (L : ValueLattice α) (outputs family : Table Point (Env α)) : Prop :=
  ∀ p, Covered L (outputs.get? p) (family.get? p)

variable {A : Analysis α} {config config' : Config} {f : FunctionDef} {g : Graph} {entry : Point}
  {P : Env α → Prop} {outputs family : Table Point (Env α)}

/-- Joined arrivals are covered by joined arrivals that cover each of them. -/
theorem Monotonic.joinArrivals (mono : A.Monotonic f g P)
    {first second first' second' : Option (Env α)} (left : Covered A.lattice first first')
    (right : Covered A.lattice second second') :
    Covered A.lattice (A.joinArrivals first second) (A.joinArrivals first' second') := by
  have laws := mono.laws
  cases first with
  | none =>
    -- What is joined on the left of the larger side only adds to it.
    intro env found
    obtain ⟨other, there, below⟩ := right env found
    subst there
    cases first' with
    | none => exact ⟨other, rfl, below⟩
    | some more => exact ⟨_, rfl, below.trans laws (below_join_right laws more other)⟩
  | some env =>
    obtain ⟨env', rfl, below⟩ := left env rfl
    cases second with
    | none =>
      cases second' with
      | none => exact covered_some below
      | some more => exact covered_some (below.trans laws (below_join_left laws env' more))
    | some other =>
      obtain ⟨other', rfl, below'⟩ := right other rfl
      exact covered_some (join_below laws (below.trans laws (below_join_left laws env' other'))
        (below'.trans laws (below_join_right laws env' other')))

/-- More arrives from outputs that cover the given ones. -/
theorem Monotonic.arriving (mono : A.Monotonic f g P) (all : OnAll P outputs)
    (covers : CoveredBy A.lattice outputs family) (p : Point) :
    Covered A.lattice (A.arriving f g outputs p) (A.arriving f g family p) := by
  unfold Analysis.arriving inflow
  refine List.foldl_rel (covered_refl A.lattice _) fun e found joined joined' before => ?_
  refine mono.joinArrivals before ?_
  unfold arrival
  cases source : outputs.get? e.source with
  | none => exact covered_none A.lattice _
  | some env =>
    obtain ⟨other, there, below⟩ := covers e.source env source
    rw [there]
    exact mono.along e (mem_incoming.mp found).1 (all e.source env source) below

/-- What arrives from outputs with the property has it, too. -/
theorem Monotonic.onSome_arriving (mono : A.Monotonic f g P) (all : OnAll P outputs) (p : Point) :
    OnSome P (A.arriving f g outputs p) := by
  refine mono.kept.inflow all ?_ p
  intro env seeded
  obtain ⟨entry, -, seeded⟩ := Option.bind_eq_some_iff.mp seeded
  exact mono.kept.seed? p env seeded

/-- **More is asked for from outputs that cover the given ones.** -/
theorem Monotonic.demanded (mono : A.Monotonic f g P) (all : OnAll P outputs)
    (covers : CoveredBy A.lattice outputs family) (p : Point) :
    Covered A.lattice (A.demanded f g outputs p) (A.demanded f g family p) := by
  intro asked found
  obtain ⟨input, update, arrived, transfer, rfl⟩ := demanded_eq_some found
  obtain ⟨input', arrived', below⟩ := mono.arriving all covers p input arrived
  obtain ⟨update', transfer'⟩ := mono.total p input'
  refine ⟨_, demanded_of_arriving arrived' transfer', ?_⟩
  exact mono.transfer (visitable_of_arriving arrived) (mono.onSome_arriving all p input arrived) below
    transfer transfer'

/-! ## Runs climb -/

/-- Every output is at most what its equation asks for. -/
def Ascends (A : Analysis α) (f : FunctionDef) (g : Graph) (outputs : Table Point (Env α)) : Prop :=
  ∀ p, Covered A.lattice (outputs.get? p) (A.demanded f g outputs p)

/-- The invariant of a run: everything stored has the property, and outputs only have to rise. -/
structure Climbs (A : Analysis α) (f : FunctionDef) (g : Graph) (P : Env α → Prop) (run : Run α) :
    Prop where
  keeps : Keeps P g run
  ascends : A.Ascends f g run.outputs

/-- Widening an output only joins it with the last one. -/
theorem Monotonic.widenEnv_eq (mono : A.Monotonic f g P) (last new : Env α) :
    A.widenEnv last new = last.join A.lattice new := by
  rw [Env.join_eq_combine]
  exact congrArg (Env.combine · last new) (funext fun _ => funext₂ mono.widen)

/-- The last output is lost in the new one, however a loop head combines them. -/
theorem Monotonic.settled_eq (mono : A.Monotonic f g P) {p : Point} {last : Option (Env α)}
    {new output : Env α} (rises : Covered A.lattice last (some new))
    (settled : Settled A g p last new output) : output = new := by
  have below : ∀ {env : Env α}, last = some env → env.Below A.lattice new := by
    intro env found
    obtain ⟨other, same, below⟩ := rises env found
    cases same
    exact below
  cases settled with
  | replaced => rfl
  | joined _ found => exact join_eq_right mono.laws (below found)
  | widened _ found => exact (mono.widenEnv_eq _ new).trans (join_eq_right mono.laws (below found))

/-- A visit of a climbing run settles on what the equation asks for. -/
theorem Monotonic.settled_demanded (mono : A.Monotonic f g P) (isEntry : g.entry = some entry)
    (ascends : A.Ascends f g outputs) {p : Point} {input output : Env α} {update : Update α}
    (arrived : A.inflow g outputs (A.seed? f entry p) p = some input)
    (transfer : A.transfer p input = .ok update)
    (settled : Settled A g p (outputs.get? p) (input.updated update.bindings) output) :
    output = input.updated update.bindings ∧ A.demanded f g outputs p = some output := by
  rw [inflow_seed? A f isEntry] at arrived
  have asked := demanded_of_arriving arrived transfer
  have new := mono.settled_eq (asked ▸ ascends p) settled
  exact ⟨new, new ▸ asked⟩

/-- **What a visit does in a climbing run.** The settings play no part: the new output is what the
equation asks for. -/
theorem Monotonic.advance_cases (mono : A.Monotonic f g P) (isEntry : g.entry = some entry)
    {run next : Run α} (ascends : A.Ascends f g run.outputs)
    (advance : A.Advances config f g entry run next) : ∃ p rest, run.queue = p :: rest ∧
      (A.arriving f g run.outputs p = none ∧ next.inputs = run.inputs ∧ next.outputs = run.outputs ∧
          next.queue = rest ∨
        ∃ input new, A.arriving f g run.outputs p = some input ∧
          A.demanded f g run.outputs p = some new ∧ next.inputs = run.inputs.set p input ∧
          (run.outputs.get? p = some new ∧ next.outputs = run.outputs ∧ next.queue = rest ∨
            run.outputs.get? p ≠ some new ∧ next.outputs = run.outputs.set p new ∧
              next.queue = enqueue rest (g.successors p))) := by
  obtain ⟨p, rest, queue, visited⟩ := advance
  refine ⟨p, rest, queue, ?_⟩
  rcases visit_cases visited with ⟨nothing, same⟩ |
    ⟨input, update, output, arrived, transfer, settled, inputs, changes⟩
  · exact Or.inl ⟨inflow_seed? A f isEntry run.outputs p ▸ nothing, same⟩
  · obtain ⟨rfl, asked⟩ := mono.settled_demanded isEntry ascends arrived transfer settled
    exact Or.inr ⟨input, _, inflow_seed? A f isEntry run.outputs p ▸ arrived, asked, inputs, changes⟩

/-- The outputs stay, or the visited point gets what its equation asks for. -/
theorem Monotonic.outputs_cases (mono : A.Monotonic f g P) (isEntry : g.entry = some entry)
    {run next : Run α} (ascends : A.Ascends f g run.outputs)
    (advance : A.Advances config f g entry run next) : next.outputs = run.outputs ∨
      ∃ p new, A.demanded f g run.outputs p = some new ∧ next.outputs = run.outputs.set p new := by
  obtain ⟨p, rest, -, ⟨-, -, same, -⟩ | ⟨input, new, -, asked, -, change⟩⟩ :=
    mono.advance_cases isEntry ascends advance
  · exact Or.inl same
  · rcases change with ⟨-, same, -⟩ | ⟨-, changed, -⟩
    · exact Or.inl same
    · exact Or.inr ⟨p, new, asked, changed⟩

/-- A rise at one point keeps every output covered. -/
theorem coveredBy_set {p : Point} {new : Env α}
    (rises : Covered A.lattice (outputs.get? p) (some new)) :
    CoveredBy A.lattice outputs (outputs.set p new) := by
  intro q
  rw [Table.get?_set]
  split
  · next here => exact here ▸ rises
  · exact covered_refl A.lattice _

/-- Storing what an equation asks for keeps the outputs ascending. -/
theorem Monotonic.ascends_set (mono : A.Monotonic f g P) (all : OnAll P outputs)
    (ascends : A.Ascends f g outputs) {p : Point} {new : Env α}
    (asked : A.demanded f g outputs p = some new) : A.Ascends f g (outputs.set p new) := by
  intro q
  have more := mono.demanded all (coveredBy_set (asked ▸ ascends p)) q
  rw [Table.get?_set]
  split
  · next here =>
    subst here
    exact asked ▸ more
  · exact (ascends q).trans mono.laws more

/-- **A visit keeps a run climbing.** -/
theorem Monotonic.advance (mono : A.Monotonic f g P) (isEntry : g.entry = some entry)
    {run next : Run α} (climbs : A.Climbs f g P run)
    (advance : A.Advances config f g entry run next) : A.Climbs f g P next := by
  refine ⟨mono.kept.advance climbs.keeps advance, ?_⟩
  rcases mono.outputs_cases isEntry climbs.ascends advance with same | ⟨p, new, asked, changed⟩
  · exact same ▸ climbs.ascends
  · exact changed ▸ mono.ascends_set climbs.keeps.outputs climbs.ascends asked

/-- Nothing is stored before the first visit. -/
theorem climbs_initial (isEntry : g.entry = some entry) : A.Climbs f g P (.initial entry) := by
  refine ⟨keeps_initial P isEntry, fun p => ?_⟩
  exact covered_none A.lattice _

theorem Monotonic.climbs (mono : A.Monotonic f g P) (isEntry : g.entry = some entry) {run : Run α}
    (advances : Relation.ReflTransGen (A.Advances config f g entry) (.initial entry) run) :
    A.Climbs f g P run := by
  induction advances with
  | refl => exact climbs_initial isEntry
  | tail _ advance ih => exact mono.advance isEntry ih advance

/-! ## Results -/

/-- **Results solve the equations.** A stored output is above what its equation asks for, because the
result is locally consistent, and at most that, because the run climbed. -/
theorem Monotonic.isSolution (mono : A.Monotonic f g P) {result : Result α}
    (ran : A.runOn config f g = .ok result) : A.IsSolution f g result.outputs := by
  have ascends : A.Ascends f g result.outputs := by
    rcases runOn_eq_ok ran with ⟨-, rfl⟩ | ⟨entry, final, isEntry, advances, -, rfl⟩
    · exact fun p => covered_none A.lattice _
    · exact (mono.climbs isEntry advances).ascends
  intro p
  cases asked : A.demanded f g result.outputs p with
  | none =>
    -- An output is never kept without an equation that asks for it.
    cases stored : result.outputs.get? p with
    | none => rfl
    | some output =>
      obtain ⟨new, impossible, -⟩ := ascends p output stored
      rw [asked] at impossible
      cases impossible
  | some new =>
    obtain ⟨input, update, arrived, transfer, rfl⟩ := demanded_eq_some asked
    obtain ⟨-, update', last, output, transfer', stored, settled⟩ := stored_of_recomputed ran arrived
    rw [transfer] at transfer'
    cases transfer'
    obtain ⟨new, same, below⟩ := ascends p output stored
    rw [asked] at same
    cases same
    rw [stored]
    refine congrArg some (below.antisymm mono.laws ?_)
    cases settled with
    | replaced => exact below_refl A.lattice _
    | joined _ _ => exact below_join_right mono.laws _ _
    | widened _ _ => exact mono.widenEnv_eq _ _ ▸ below_join_right mono.laws _ _

/-- A visit keeps the outputs below a closed family. -/
theorem Monotonic.coveredBy_advance (mono : A.Monotonic f g P) (isEntry : g.entry = some entry)
    (closed : A.IsClosed f g family) {run next : Run α} (climbs : A.Climbs f g P run)
    (covers : CoveredBy A.lattice run.outputs family)
    (advance : A.Advances config f g entry run next) :
    CoveredBy A.lattice next.outputs family := by
  have after : OnAll P next.outputs := (mono.kept.advance climbs.keeps advance).outputs
  rcases mono.outputs_cases isEntry climbs.ascends advance with same | ⟨p, new, asked, changed⟩
  · exact same ▸ covers
  · intro q
    by_cases here : q = p
    · -- The family asks for more at the point than the outputs do, and has it.
      subst here
      have stored : next.outputs.get? q = some new := by rw [changed, Table.get?_set, if_pos rfl]
      obtain ⟨more, asked', below⟩ := mono.demanded climbs.keeps.outputs covers q new asked
      obtain ⟨env, there, above⟩ := closed q more asked'
      rw [stored, there]
      exact covered_some (below.trans_atMost mono.laws (mono.proper (after q new stored)) above)
    · rw [changed, Table.get?_set, if_neg here]
      exact covers q

/-- Every moment of a run is below every closed family. -/
theorem Monotonic.coveredBy_advances (mono : A.Monotonic f g P) (isEntry : g.entry = some entry)
    (closed : A.IsClosed f g family) {run : Run α}
    (advances : Relation.ReflTransGen (A.Advances config f g entry) (.initial entry) run) :
    CoveredBy A.lattice run.outputs family := by
  induction advances with
  | refl => exact fun p => covered_none A.lattice _
  | tail before advance ih =>
    exact mono.coveredBy_advance isEntry closed (mono.climbs isEntry before) ih advance

/-- **Results are below every closed family.** -/
theorem Monotonic.coveredBy (mono : A.Monotonic f g P) (closed : A.IsClosed f g family)
    {result : Result α} (ran : A.runOn config f g = .ok result) :
    CoveredBy A.lattice result.outputs family := by
  rcases runOn_eq_ok ran with ⟨-, rfl⟩ | ⟨entry, final, isEntry, advances, -, rfl⟩
  · exact fun p => covered_none A.lattice _
  · exact mono.coveredBy_advances isEntry closed advances

/-! ## Settings -/

/-- Two runs that have stored the same and have the same ahead. -/
structure Alike (run other : Run α) : Prop where
  queue : other.queue = run.queue
  inputs : other.inputs = run.inputs
  outputs : other.outputs = run.outputs

/-- Alike runs stay alike when both visit, whatever their settings. -/
theorem Monotonic.alike_advance (mono : A.Monotonic f g P) (isEntry : g.entry = some entry)
    {run other next next' : Run α} (ascends : A.Ascends f g run.outputs) (alike : Alike run other)
    (advance : A.Advances config f g entry run next)
    (advance' : A.Advances config' f g entry other next') : Alike next next' := by
  obtain ⟨p, rest, queue, did⟩ := mono.advance_cases isEntry ascends advance
  obtain ⟨p', rest', queue', did'⟩ :=
    mono.advance_cases isEntry (alike.outputs.symm ▸ ascends) advance'
  -- Both visit the same point, and what they do depends on what is stored.
  rw [alike.queue, queue] at queue'
  cases queue'
  rw [alike.inputs, alike.outputs] at did'
  rcases did with ⟨nothing, inputs, outputs, same⟩ | ⟨input, new, arrived, asked, inputs, change⟩
  · rcases did' with ⟨-, inputs', outputs', same'⟩ | ⟨_, _, impossible, -⟩
    · exact ⟨same'.trans same.symm, inputs'.trans inputs.symm, outputs'.trans outputs.symm⟩
    · rw [nothing] at impossible
      cases impossible
  · rcases did' with ⟨impossible, -⟩ | ⟨_, _, arrived', asked', inputs', change'⟩
    · rw [arrived] at impossible
      cases impossible
    · rw [arrived] at arrived'
      rw [asked] at asked'
      cases arrived'
      cases asked'
      rcases change with ⟨stays, outputs, same⟩ | ⟨differs, outputs, same⟩
      · obtain ⟨-, outputs', same'⟩ := change'.resolve_right fun other => other.1 stays
        exact ⟨same'.trans same.symm, inputs'.trans inputs.symm, outputs'.trans outputs.symm⟩
      · obtain ⟨-, outputs', same'⟩ := change'.resolve_left fun other => differs other.1
        exact ⟨same'.trans same.symm, inputs'.trans inputs.symm, outputs'.trans outputs.symm⟩

/-- A run with as many visits left drains to what an alike run drains to. -/
theorem Monotonic.drain_alike (mono : A.Monotonic f g P) (isEntry : g.entry = some entry)
    {budget budget' : Nat} (enough : budget ≤ budget') {run other final : Run α}
    (climbs : A.Climbs f g P run) (alike : Alike run other)
    (drained : A.drain config f g entry budget run = .ok final) :
    ∃ final', A.drain config' f g entry budget' other = .ok final' ∧ Alike final final' := by
  induction budget generalizing budget' run other with
  | zero =>
    rcases drain_eq_ok drained with ⟨empty, rfl⟩ | ⟨left, next, impossible, -⟩
    · exact ⟨other, drain_of_empty (alike.queue.trans empty) budget', alike⟩
    · cases impossible
  | succ left ih =>
    rcases drain_eq_ok drained with ⟨empty, rfl⟩ | ⟨left', next, same, advance, later⟩
    · exact ⟨other, drain_of_empty (alike.queue.trans empty) budget', alike⟩
    · cases same
      obtain ⟨left', rfl⟩ : ∃ left', budget' = left' + 1 := ⟨budget' - 1, by omega⟩
      -- No transfer fails, so the other run can visit the same point.
      obtain ⟨next', advance'⟩ : ∃ next', A.Advances config' f g entry other next' := by
        obtain ⟨p, rest, queue, -⟩ := advance
        obtain ⟨next', visited⟩ := exists_visit (mono.total p) _
        exact ⟨next', p, rest, alike.queue.trans queue, visited⟩
      rw [drain_of_advances advance']
      exact ih (by omega) (mono.advance isEntry climbs advance)
        (mono.alike_advance isEntry climbs.ascends alike advance advance') later

/-- **Other settings with at least as many visits give the same environments.** -/
theorem Monotonic.run_alike (mono : A.Monotonic f g P)
    (enough : config.maxIterations ≤ config'.maxIterations) {result : Result α}
    (ran : A.runOn config f g = .ok result) :
    ∃ other, A.runOn config' f g = .ok other ∧ other.inputs = result.inputs ∧
      other.outputs = result.outputs := by
  unfold runOn at ran ⊢
  split at ran
  · cases ran
    exact ⟨_, rfl, rfl, rfl⟩
  · next entry isEntry =>
    split at ran
    · cases ran
    · next final drained =>
      cases ran
      obtain ⟨final', drained', alike⟩ :=
        mono.drain_alike isEntry enough (climbs_initial isEntry) ⟨rfl, rfl, rfl⟩ drained
      rw [drained']
      exact ⟨_, rfl, alike.inputs, alike.outputs⟩

end Dataflow.Analysis
