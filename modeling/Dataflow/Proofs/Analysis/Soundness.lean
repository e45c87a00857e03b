import Dataflow.Proofs.Analysis.LocalConsistency
import Dataflow.Proofs.Analysis.Names
import Dataflow.Proofs.Graph.ControlFlow

/-!
# Sound analyses

An analysis is read through a relation `γ` between abstract values and the values of variables. It is
`Sound` when each of its parts is: the bounds, join, meet and widening of its lattice, the transfer of
a statement, and the narrowing by a condition that holds. From these local facts, whatever a run
returns describes every execution (`Sound.result`): where control arrives with some store, the input
of the point is there and describes that store, and so does the output for the store that the statement
leaves.

The induction is over the steps of the execution. It never looks at how the run got to its result:
local consistency says that the input computed from the final outputs is the stored one, so it is
enough that the step's edge lets the store through.
-/

set_option autoImplicit false

namespace Dataflow.Analysis

open Concrete

variable {α : Type}

/-- Every binding of an environment describes what the store holds under its name. -/
def Contains (γ : α → Value → Prop) (env : Env α) (σ : Store) : Prop :=
  ∀ name a, env.get? name = some a → γ a (σ name)

/-- An environment describes a store: it binds the listed names and no others, each to a value that
describes what the store holds. -/
structure Describes (γ : α → Value → Prop) (names : List String) (env : Env α) (σ : Store) : Prop where
  binds : env.Binds names
  contains : Contains γ env σ

/-- The parts of an analysis respect the meaning `γ` of its values. -/
structure Sound (A : Analysis α) (γ : α → Value → Prop) : Prop where
  names : A.Scoped
  top : ∀ v, γ A.lattice.top v
  bottom : ∀ v, ¬ γ A.lattice.bottom v
  join_left : ∀ {a b : α} {v : Value}, γ a v → γ (A.lattice.join a b) v
  join_right : ∀ {a b : α} {v : Value}, γ b v → γ (A.lattice.join a b) v
  meet : ∀ {a b : α} {v : Value}, γ a v → γ b v → γ (A.lattice.meet a b) v
  widen : ∀ {a b : α} {v : Value}, γ b v → γ (A.widen a b).1 v
  transfer : ∀ {W : World} {p : Point} {env : Env α} {update : Update α} {σ σ' : Store}
    {calls after : List Call}, A.transfer p env = .ok update → Contains γ env σ →
    execute W p.statement σ calls = some (σ', after) → Contains γ (env.updated update.bindings) σ'
  narrow : ∀ {W : World} {condition : Expr} {env : Env α} {σ : Store} {calls after : List Call},
    Contains γ env σ → eval W σ condition calls = some (.bool true, after) →
    ∃ bindings, (A.narrow condition env).bindings = some bindings ∧ Contains γ bindings σ

/-! ## Environments that contain a store -/

section Environments

variable {γ : α → Value → Prop} {env other : Env α} {σ : Store}

/-- An environment of values that contain everything contains every store. -/
theorem contains_uniform {value : α} (all : ∀ v, γ value v) (names : List String) (σ : Store) :
    Contains γ (Env.uniform names value) σ := by
  intro name a found
  rw [Env.get?_uniform] at found
  split at found
  · cases found
    exact all (σ name)
  · cases found

/-- A combination contains what its first side does, when the first side has all of its names. -/
theorem Contains.combine_left {f : α → α → α} (keeps : ∀ {a b : α} {v : Value}, γ a v → γ (f a b) v)
    (covers : ∀ name, ((env.combine (fun _ => f) other).get? name).isSome = true →
      (env.get? name).isSome = true)
    (contains : Contains γ env σ) : Contains γ (env.combine (fun _ => f) other) σ := by
  intro name c found
  obtain ⟨a, left⟩ := Option.isSome_iff_exists.mp (covers name (by simp [found]))
  rw [Env.get?_combine, left] at found
  cases right : other.get? name with
  | none =>
    rw [right] at found
    cases found
    exact contains name _ left
  | some b =>
    rw [right] at found
    cases found
    exact keeps (contains name a left)

/-- A combination contains what its second side does, when the second side has all of its names. -/
theorem Contains.combine_right {f : α → α → α} (keeps : ∀ {a b : α} {v : Value}, γ b v → γ (f a b) v)
    (covers : ∀ name, ((env.combine (fun _ => f) other).get? name).isSome = true →
      (other.get? name).isSome = true)
    (contains : Contains γ other σ) : Contains γ (env.combine (fun _ => f) other) σ := by
  intro name c found
  obtain ⟨b, right⟩ := Option.isSome_iff_exists.mp (covers name (by simp [found]))
  rw [Env.get?_combine, right] at found
  cases left : env.get? name with
  | none =>
    rw [left] at found
    cases found
    exact contains name _ right
  | some a =>
    rw [left] at found
    cases found
    exact keeps (contains name b right)

/-- A combination by meets contains what both sides do, whatever their names. -/
theorem Contains.combine_both {f : α → α → α}
    (keeps : ∀ {a b : α} {v : Value}, γ a v → γ b v → γ (f a b) v)
    (contains : Contains γ env σ) (contains' : Contains γ other σ) :
    Contains γ (env.combine (fun _ => f) other) σ := by
  intro name c found
  rw [Env.get?_combine] at found
  cases left : env.get? name with
  | none =>
    rw [left] at found
    exact contains' name c found
  | some a =>
    rw [left] at found
    cases right : other.get? name with
    | none =>
      rw [right] at found
      cases found
      exact contains name _ left
    | some b =>
      rw [right] at found
      cases found
      exact keeps (contains name a left) (contains' name b right)

/-- An updated environment contains a store that agrees with an old one outside the update. -/
theorem Contains.updated {bindings : Env α} {σ' : Store} (contains : Contains γ env σ)
    (written : Contains γ bindings σ')
    (kept : ∀ name, bindings.get? name = none → σ' name = σ name) :
    Contains γ (env.updated bindings) σ' := by
  intro name a found
  rw [Env.get?_updated] at found
  cases new : bindings.get? name with
  | none =>
    rw [new, Option.none_or] at found
    rw [kept name new]
    exact contains name a found
  | some b =>
    rw [new, Option.some_or] at found
    cases found
    exact written name a new

/-- An environment made from a list contains a store when every listed value does. -/
theorem contains_ofList {bindings : List (String × α)}
    (listed : ∀ binding ∈ bindings, γ binding.2 (σ binding.1)) :
    Contains γ (NameMap.ofList bindings) σ :=
  fun _ _ found => listed _ (NameMap.mem_of_get?_ofList found)

/-- What an environment says of a name describes the store, also when it says nothing. -/
theorem Contains.lookup {L : ValueLattice α} (top : ∀ v, γ L.top v) (contains : Contains γ env σ)
    (name : String) : γ (env.lookup L name) (σ name) := by
  unfold Env.lookup
  cases found : env.get? name with
  | none => exact top (σ name)
  | some a => exact contains name a found

end Environments

/-! ## Transfers by rules for right-hand sides -/

section Assignments

variable {evaluate : Expr → Env α → α × String} {p : Point} {env : Env α} {update : Update α}

/-- An assignment binds its target to the value of its right-hand side, and no other statement binds
anything. -/
theorem dispatch_cases (transferred : dispatch (assignmentFlow evaluate) p env = .ok update) :
    (∃ line target value, p.statement = .assign line target value ∧
      update.bindings = NameMap.ofList [(target, (evaluate value env).1)]) ∨
    (∀ line target value, p.statement ≠ .assign line target value) ∧
      update.bindings = NameMap.empty := by
  unfold dispatch at transferred
  split at transferred
  · next line target value statement =>
    cases transferred
    exact Or.inl ⟨line, target, value, statement, rfl⟩
  · next other =>
    cases transferred
    exact Or.inr ⟨other, rfl⟩

/-- Every statement has a rule. -/
theorem exists_dispatch (evaluate : Expr → Env α → α × String) (p : Point) (env : Env α) :
    ∃ update, dispatch (assignmentFlow evaluate) p env = .ok update := by
  unfold dispatch
  split
  · exact ⟨_, rfl⟩
  · exact ⟨_, rfl⟩

/-- A transfer binds names of its statement. -/
theorem mem_mentions_of_dispatch (transferred : dispatch (assignmentFlow evaluate) p env = .ok update)
    (name : String) (bound : (update.bindings.get? name).isSome = true) :
    name ∈ p.statement.mentions := by
  rcases dispatch_cases transferred with ⟨line, target, value, statement, bindings⟩ | ⟨-, bindings⟩
  · rw [bindings, NameMap.get?_ofList_singleton] at bound
    split at bound
    · next same => simp [statement, Stmt.mentions, same]
    · cases bound
  · rw [bindings, NameMap.get?_empty] at bound
    cases bound

/-- A transfer is sound when the rules for right-hand sides are. -/
theorem contains_of_dispatch {γ : α → Value → Prop} {W : World} {σ σ' : Store}
    {calls after : List Call}
    (evaluates : ∀ {e : Expr} {v : Value} {calls after : List Call},
      eval W σ e calls = some (v, after) → γ (evaluate e env).1 v)
    (transferred : dispatch (assignmentFlow evaluate) p env = .ok update)
    (contains : Contains γ env σ) (executed : execute W p.statement σ calls = some (σ', after)) :
    Contains γ (env.updated update.bindings) σ' := by
  rcases dispatch_cases transferred with ⟨line, target, value, statement, bindings⟩ |
    ⟨other, bindings⟩
  · rw [statement, execute, Option.map_eq_some_iff] at executed
    obtain ⟨⟨v, last⟩, evaluated, same⟩ := executed
    cases same
    rw [bindings]
    refine contains.updated (fun name a found => ?_) (fun name unbound => ?_)
    · rw [NameMap.get?_ofList_singleton] at found
      split at found
      · next here =>
        cases found
        rw [Store.set, if_pos here]
        exact evaluates evaluated
      · cases found
    · rw [NameMap.get?_ofList_singleton] at unbound
      split at unbound
      · cases unbound
      · next elsewhere => exact if_neg elsewhere
  · have same : σ' = σ := by
      cases statement : p.statement with
      | assign line target value => exact absurd statement (other line target value)
      | ifElse _ _ _ _ | loop _ _ _ =>
        rw [statement] at executed
        cases executed
        rfl
      | ret _ _ =>
        rw [statement, execute, Option.map_eq_some_iff] at executed
        obtain ⟨_, _, left⟩ := executed
        exact (Prod.mk.inj left).1.symm
    rw [bindings, same]
    exact contains

end Assignments

/-! ## Edges and inputs -/

variable [DecidableEq α] {A : Analysis α} {γ : α → Value → Prop} {W : World} {σ : Store}

/-- An environment is there and contains the store. -/
def Admits (γ : α → Value → Prop) (σ : Store) (arrived : Option (Env α)) : Prop :=
  ∃ env, arrived = some env ∧ Contains γ env σ

/-- An edge that lets control pass lets the store through. -/
theorem Sound.along (sound : A.Sound γ) {label : Label} {env : Env α} {calls after : List Call}
    (contains : Contains γ env σ) (passes : Passes W label σ calls after) :
    Admits γ σ (A.along label env) := by
  unfold Analysis.along
  unfold Passes at passes
  split at passes
  · next conditional =>
    obtain ⟨bindings, said, described⟩ := sound.narrow contains passes
    rw [if_pos conditional, said]
    have met : ∀ name value, bindings.get? name = some value →
        γ (Env.narrowed A.lattice (env.get? name) value) (σ name) := by
      intro name value found
      cases before : env.get? name with
      | none => exact described name value found
      | some a => exact sound.meet (contains name a before) (described name value found)
    -- Bottom contains nothing, so a value that describes the store is not bottom.
    have proper : ∀ name value, bindings.get? name = some value →
        Env.narrowed A.lattice (env.get? name) value ≠ A.lattice.bottom := by
      intro name value found empty
      exact sound.bottom (σ name) (empty ▸ met name value found)
    exact ⟨_, Env.refine?_eq_combine A.lattice proper, contains.combine_both sound.meet described⟩
  · next plain =>
    rw [if_neg plain]
    exact ⟨env, rfl, contains⟩

section Names

variable {f : FunctionDef} {g : Graph} {names : List String}

omit [DecidableEq α] in
/-- Joined arrivals admit what either of them does. -/
theorem Sound.joinArrivals (sound : A.Sound γ) {joined arrived : Option (Env α)}
    (left : OnSome (Env.Binds · names) joined) (right : OnSome (Env.Binds · names) arrived)
    (admits : Admits γ σ joined ∨ Admits γ σ arrived) :
    Admits γ σ (A.joinArrivals joined arrived) := by
  cases joined with
  | none =>
    rcases admits with ⟨env, absent, -⟩ | here
    · cases absent
    · exact here
  | some env =>
    cases arrived with
    | none =>
      rcases admits with here | ⟨env, absent, -⟩
      · exact here
      · cases absent
    | some other =>
      -- With equal names no side can slip in a value that the other lacks.
      have binds := left env rfl
      have binds' := right other rfl
      have joint := binds.combine (fun _ => A.lattice.join) binds'
      refine ⟨env.join A.lattice other, rfl, ?_⟩
      rw [Env.join_eq_combine]
      rcases admits with ⟨_, same, contains⟩ | ⟨_, same, contains⟩ <;> cases same
      · exact contains.combine_left sound.join_left fun name bound =>
          (binds name).mpr ((joint name).mp bound)
      · exact contains.combine_right sound.join_right fun name bound =>
          (binds' name).mpr ((joint name).mp bound)

/-- What is admitted stays admitted when more edges are joined. -/
theorem Sound.foldl_arrivals (sound : A.Sound γ) (kept : A.Kept f g (Env.Binds · names))
    {outputs : Table Point (Env α)} (all : OnAll (Env.Binds · names) outputs) {edges : List Edge}
    (inside : ∀ e ∈ edges, e ∈ g.edges) {joined : Option (Env α)}
    (binds : OnSome (Env.Binds · names) joined) (admits : Admits γ σ joined) :
    Admits γ σ (edges.foldl (fun joined e => A.joinArrivals joined (A.arrival outputs e)) joined) := by
  -- The names are carried along, since a join is only known to cover sides with the same names.
  have both := List.foldlRecOn edges (fun joined e => A.joinArrivals joined (A.arrival outputs e))
    (motive := fun joined => OnSome (Env.Binds · names) joined ∧ Admits γ σ joined) ⟨binds, admits⟩
    fun joined holds e found => by
      have arrival := kept.arrival all (inside e found)
      exact ⟨kept.joinArrivals holds.1 arrival, sound.joinArrivals holds.1 arrival (Or.inl holds.2)⟩
  exact both.2

/-- The input of a point admits what the seed or an edge into the point does. -/
theorem Sound.inflow (sound : A.Sound γ) (kept : A.Kept f g (Env.Binds · names))
    {outputs : Table Point (Env α)} (all : OnAll (Env.Binds · names) outputs)
    {seed : Option (Env α)} (start : OnSome (Env.Binds · names) seed) {p : Point}
    (admits : Admits γ σ seed ∨
      ∃ e ∈ g.edges, e.target = p ∧ Admits γ σ (A.arrival outputs e)) :
    Admits γ σ (A.inflow g outputs seed p) := by
  have inside : ∀ e ∈ g.incoming p, e ∈ g.edges := fun e found => (mem_incoming.mp found).1
  rcases admits with before | ⟨e, found, target, here⟩
  · exact sound.foldl_arrivals kept all inside start before
  · -- The edge splits the fold: whatever was joined before it, its own arrival is admitted.
    obtain ⟨front, back, split⟩ := List.append_of_mem (mem_incoming.mpr ⟨found, target⟩)
    rw [split] at inside
    have earlier : OnSome (Env.Binds · names)
        (front.foldl (fun joined e => A.joinArrivals joined (A.arrival outputs e)) seed) := by
      refine List.foldlRecOn front _ start fun joined holds e' here' => ?_
      exact kept.joinArrivals holds (kept.arrival all (inside e' (List.mem_append_left _ here')))
    have arrival := kept.arrival all found
    rw [Analysis.inflow, split, List.foldl_append, List.foldl_cons]
    exact sound.foldl_arrivals kept all
      (fun e' later => inside e' (List.mem_append_right _ (List.mem_cons_of_mem _ later)))
      (kept.joinArrivals earlier arrival) (sound.joinArrivals earlier arrival (Or.inr here))

omit [DecidableEq α] in
/-- A settled output contains what the new one does, when both have the same names. -/
theorem Sound.settled (sound : A.Sound γ) {p : Point} {last : Option (Env α)} {new output : Env α}
    (settled : Settled A g p last new output) (contains : Contains γ new σ)
    (covers : ∀ name, (output.get? name).isSome = true → (new.get? name).isSome = true) :
    Contains γ output σ := by
  cases settled with
  | replaced => exact contains
  | joined _ _ =>
    rw [Env.join_eq_combine] at covers ⊢
    exact contains.combine_right sound.join_right covers
  | widened _ _ => exact contains.combine_right sound.widen covers

/-! ## Executions -/

variable {config : Config} {result : Result α}

/-- Where an input arrives that contains the store, the output contains what the statement makes of
it. -/
theorem Sound.output (sound : A.Sound γ) (kept : A.Kept f g (Env.Binds · names))
    (ran : A.runOn config f g = .ok result) {p : Point}
    (admits : Admits γ σ (A.recomputed f g result p)) :
    ∃ input output, result.inputs.get? p = some input ∧ Contains γ input σ ∧
      result.outputs.get? p = some output ∧
      ∀ {σ' : Store} {calls after : List Call}, execute W p.statement σ calls = some (σ', after) →
        Contains γ output σ' := by
  obtain ⟨input, arrived, contains⟩ := admits
  obtain ⟨stored, update, last, output, transferred, reached, settled⟩ :=
    stored_of_recomputed ran arrived
  obtain ⟨inputs, outputs⟩ := kept.stored ran
  refine ⟨input, output, stored, contains, reached, fun ran => ?_⟩
  -- Input and output bind the same names, and an update unbinds none.
  refine sound.settled settled (sound.transfer transferred contains ran) fun name bound => ?_
  have here := (inputs p input stored name).mpr ((outputs p output reached name).mp bound)
  rw [Env.get?_updated, Option.isSome_or, here, Bool.or_true]

/-- **Every arrival is admitted.** Where an execution arrives at a point, the input computed from the
outputs of the result contains the store. -/
theorem Sound.arrives (sound : A.Sound γ) (kept : A.Kept f (Graph.build f) (Env.Binds · names))
    (ran : A.runOn config f (Graph.build f) = .ok result) {s : State}
    (reached : Reaches W (.start f.body σ) s) :
    ∀ v, s.visit? = some v → Admits γ v.store (A.recomputed f (Graph.build f) result v.point) := by
  obtain ⟨-, outputs⟩ := kept.stored ran
  have seeded : ∀ p, OnSome (Env.Binds · names)
      ((Graph.build f).entry.bind fun entry => A.seed? f entry p) := by
    intro p
    cases (Graph.build f).entry with
    | none => exact fun env found => by cases found
    | some entry => exact kept.seed? p
  induction reached with
  | refl =>
    intro v here
    -- Control starts at the entry, whose seed contains every store.
    have entry : (Graph.build f).entry = some v.point := by
      obtain ⟨rest, same⟩ := visit?_eq_some_iff.mp here
      obtain ⟨body, -, -⟩ := State.mk.inj same
      simp [Graph.build_eq, body]
    refine sound.inflow kept outputs (seeded v.point) (Or.inl ?_)
    rw [entry, Option.bind_some, seed?, if_pos rfl]
    exact ⟨_, rfl, contains_uniform sound.top _ _⟩
  | @tail s t before step ih =>
    intro w there
    -- The step takes an edge from a point whose output contains the new store.
    have agenda := (agenda_of_reaches before).resolve_right fun finished =>
      not_step_of_finished finished step
    obtain ⟨statement, rest, first⟩ := Stmt.exists_cons_of_mem_agendas agenda
    have here : s.visit? = some ⟨⟨statement⟩, s.store, s.calls⟩ := by simp [State.visit?, first]
    obtain ⟨e, found, takes⟩ := moves_of_step agenda step here there
    obtain ⟨mid, executed, passes⟩ := takes.passes
    obtain ⟨input, output, -, -, stored, described⟩ := sound.output kept ran (ih _ here)
    have arrival : Admits γ w.store (A.arrival result.outputs e) := by
      rw [Analysis.arrival, takes.source, stored]
      exact sound.along (described executed) passes
    exact sound.inflow kept outputs (seeded w.point) (Or.inr ⟨e, found, takes.target, arrival⟩)

end Names

/-- **Results of a sound analysis describe every execution.** Where control arrives at a statement,
its point has an input that describes the store and an output that describes the store after it. -/
theorem Sound.result (sound : A.Sound γ) {config : Config} {line : Nat} {called : String}
    {parameters : List String} {body : List Stmt} {source : Option String} {result : Result α}
    (ran : A.run config (.make line called parameters body source) = .ok result) {start : Store}
    {s : Stmt} {rest : List Stmt} {calls : List Call}
    (reached : Reaches W (.start body start) ⟨s :: rest, σ, calls⟩) :
    ∃ input output, result.inputs.get? ⟨s⟩ = some input ∧
      Describes γ (FunctionDef.variablesOf parameters body).toList input σ ∧
      result.outputs.get? ⟨s⟩ = some output ∧
      ∀ t, Concrete.Step W ⟨s :: rest, σ, calls⟩ t →
        Describes γ (FunctionDef.variablesOf parameters body).toList output t.store := by
  have kept := sound.names.kept line called parameters body source
  obtain ⟨inputs, outputs⟩ := kept.stored ran
  have admits := sound.arrives kept ran reached ⟨⟨s⟩, σ, calls⟩ rfl
  obtain ⟨input, output, stored, contains, leaves, described⟩ := sound.output kept ran admits
  refine ⟨input, output, stored, ⟨inputs _ input stored, contains⟩, leaves, fun t step => ?_⟩
  obtain ⟨after, executed⟩ := execute_of_step step
  exact ⟨outputs _ output leaves, described executed⟩

end Dataflow.Analysis
