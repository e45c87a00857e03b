import Dataflow.Proofs.Analysis.Run
import Mathlib.Algebra.BigOperators.Group.List.Basic
import Mathlib.Algebra.Group.Action.Defs
import Mathlib.Algebra.Order.BigOperators.Group.List
import Mathlib.Algebra.Order.Ring.Nat

/-!
# Runs that end

A `Tariff` puts a price on every queued point, and lays aside for every edge the price of its target,
once for each time that the output of its source may still change. The sum of both is the potential of
a run. A visit takes a point from the queue. When it changes an output, the successors that it queues
are paid for by what was laid aside for the edges to them, or, where nothing was, by the price of the
visited point (`Tariff.Pays`). So every visit lowers the potential (`Tariff.potential_lt`), and a run
that is allowed as many visits as the potential before the first one has a result
(`Tariff.PaysFor.exists_result`).
-/

set_option autoImplicit false

namespace Dataflow.Analysis

/-! ## Prices of queues -/

/-- The total price of some points. -/
def load (price : Point → Nat) (points : List Point) : Nat := (points.map price).sum

variable {price : Point → Nat}

@[simp] theorem load_cons (p : Point) (rest : List Point) :
    load price (p :: rest) = price p + load price rest := by
  simp [load]

@[simp] theorem load_append (points more : List Point) :
    load price (points ++ more) = load price points + load price more := by
  simp [load]

/-- A queue gets at most as much dearer as the points that are queued. -/
theorem load_enqueue_le (price : Point → Nat) (queue points : List Point) :
    load price (enqueue queue points) ≤ load price queue + load price points := by
  induction points generalizing queue with
  | nil => exact Nat.le_refl _
  | cons p rest ih =>
    rw [enqueue, load_cons]
    split
    · have later := ih queue
      omega
    · have later := ih (queue ++ [p])
      rw [load_append, load_cons] at later
      have nothing : load price [] = 0 := rfl
      omega

/-- Dropping later copies makes no list of points dearer. -/
theorem load_distinct_le (price : Point → Nat) (points : List Point) :
    load price (Graph.distinct points) ≤ load price points := by
  induction points with
  | nil => exact Nat.le_refl _
  | cons p rest ih =>
    rw [Graph.distinct, load_cons, load_cons]
    have fewer : load price ((Graph.distinct rest).filter (· ≠ p)) ≤
        load price (Graph.distinct rest) :=
      (List.filter_sublist.map price).sum_le_sum fun _ _ => Nat.zero_le _
    omega

/-- The price of what the edges out of a point lead to, each edge counted. -/
def spread (price : Point → Nat) (edges : List Edge) (p : Point) : Nat :=
  load price ((edges.filter (·.source = p)).map (·.target))

theorem load_successors_le (price : Point → Nat) (g : Graph) (p : Point) :
    load price (g.successors p) ≤ spread price g.edges p :=
  load_distinct_le price _

/-- Prices that grow with a rank of the points, by more than a factor for every edge. -/
def priceByRank (g : Graph) (rank : Point → Nat) (p : Point) : Nat :=
  (g.edges.length + 1) ^ rank p

/-- A point is dearer than all that its edges lead to, when they lower the rank. -/
theorem spread_lt_priceByRank {g : Graph} {rank : Point → Nat} {p : Point}
    (lowers : ∀ e ∈ g.edges, e.source = p → rank e.target < rank p) :
    spread (priceByRank g rank) g.edges p < priceByRank g rank p := by
  have targets : ∀ e ∈ g.edges.filter (·.source = p), rank e.target < rank p := by
    intro e found
    rw [List.mem_filter, decide_eq_true_eq] at found
    exact lowers e found.1 found.2
  cases height : rank p with
  | zero =>
    -- No edge lowers the rank any more.
    have none : g.edges.filter (·.source = p) = [] := by
      refine List.eq_nil_iff_forall_not_mem.mpr fun e found => ?_
      have lower := targets e found
      omega
    simp [spread, none, load, priceByRank, height]
  | succ r =>
    have each : ∀ n ∈ ((g.edges.filter (·.source = p)).map (·.target)).map (priceByRank g rank),
        n ≤ (g.edges.length + 1) ^ r := by
      intro n found
      rw [List.map_map] at found
      obtain ⟨e, edge, rfl⟩ := List.mem_map.mp found
      have lower : rank e.target ≤ r := by
        have less := targets e edge
        omega
      exact Nat.pow_le_pow_right (Nat.succ_pos _) lower
    calc spread (priceByRank g rank) g.edges p
        ≤ (g.edges.filter (·.source = p)).length * (g.edges.length + 1) ^ r := by
          have total := List.sum_le_card_nsmul _ _ each
          rwa [List.length_map, List.length_map, smul_eq_mul] at total
      _ ≤ g.edges.length * (g.edges.length + 1) ^ r :=
          Nat.mul_le_mul_right _ (List.length_filter_le _ _)
      _ < (g.edges.length + 1) * (g.edges.length + 1) ^ r :=
          Nat.mul_lt_mul_of_pos_right (Nat.lt_succ_self _) (Nat.pow_pos (Nat.succ_pos _))
      _ = priceByRank g rank p := by rw [priceByRank, height, Nat.pow_succ, Nat.mul_comm]

/-! ## Tariffs -/

/-- Prices of queued points, and how often the output of a point may still change, given the output it
has. -/
structure Tariff (α : Type) where
  price : Point → Nat
  credit : Point → Option (Env α) → Nat
  positive : ∀ p, 0 < price p

namespace Tariff

variable {α : Type} (t : Tariff α)

/-- What is laid aside for some edges: the price of the target, as often as the source may change. -/
def reserve (edges : List Edge) (outputs : Table Point (Env α)) : Nat :=
  (edges.map fun e => t.credit e.source (outputs.get? e.source) * t.price e.target).sum

/-- The queued points and what is laid aside. -/
def potential (g : Graph) (run : Run α) : Nat :=
  load t.price run.queue + t.reserve g.edges run.outputs

/-- The potential before the first visit. -/
def bound (g : Graph) : Nat :=
  load t.price g.entry.toList + t.reserve g.edges .empty

/-- A change of the output of a point is paid for: it uses up credit, or it leaves the credit and the
visited point is dearer than all that its edges lead to. -/
def Pays (g : Graph) (p : Point) (last : Option (Env α)) (output : Env α) : Prop :=
  t.credit p (some output) < t.credit p last ∨
    t.credit p (some output) ≤ t.credit p last ∧ spread t.price g.edges p < t.price p

/-- Using up credit at a point frees the price of what its edges lead to, as often as credit is used
up. -/
theorem reserve_set_le (used : Nat) (edges : List Edge) (outputs : Table Point (Env α))
    {p : Point} {output : Env α}
    (lower : t.credit p (some output) + used ≤ t.credit p (outputs.get? p)) :
    t.reserve edges (outputs.set p output) + used * spread t.price edges p ≤
      t.reserve edges outputs := by
  induction edges with
  | nil => simp [reserve, spread, load]
  | cons e rest ih =>
    have first : ∀ table, t.reserve (e :: rest) table =
        t.credit e.source (table.get? e.source) * t.price e.target + t.reserve rest table := by
      intro table
      simp [reserve]
    rw [first, first, Table.get?_set]
    by_cases here : e.source = p
    · -- The edge has the credit of the point, and frees the price of its target.
      have more : spread t.price (e :: rest) p = t.price e.target + spread t.price rest p := by
        simp [spread, here]
      have freed := Nat.mul_le_mul_right (t.price e.target) lower
      rw [if_pos here, here, more, Nat.mul_add]
      rw [Nat.add_mul] at freed
      omega
    · have same : spread t.price (e :: rest) p = spread t.price rest p := by simp [spread, here]
      rw [if_neg here, same]
      omega

variable {t} [DecidableEq α] {A : Analysis α} {config : Config} {f : FunctionDef} {g : Graph}
  {entry : Point}

/-- **A visit lowers the potential**, when the change that it may make is paid for. -/
theorem potential_lt {run next : Run α} (advance : A.Advances config f g entry run next)
    (pays : ∀ {p : Point} {input output : Env α} {update : Update α}, p ∈ run.queue →
      A.inflow g run.outputs (A.seed? f entry p) p = some input → A.transfer p input = .ok update →
      Settled A g p (run.outputs.get? p) (input.updated update.bindings) output →
      run.outputs.get? p ≠ some output → t.Pays g p (run.outputs.get? p) output) :
    t.potential g next < t.potential g run := by
  obtain ⟨p, rest, queue, visited⟩ := advance
  have positive := t.positive p
  unfold potential
  rw [queue, load_cons]
  rcases visit_cases visited with ⟨-, -, outputs, same⟩ |
    ⟨input, update, output, arrived, transferred, settled, -, change⟩
  · -- The point leaves the queue, and nothing else happens.
    rw [same, outputs]
    dsimp only
    omega
  · rcases change with ⟨-, outputs, same⟩ | ⟨changed, outputs, same⟩
    · rw [same, outputs]
      dsimp only
      omega
    · -- The point leaves the queue, its successors come to it, and its edges lose their reserve.
      rw [same, outputs]
      have queued := load_enqueue_le t.price rest (g.successors p)
      have successors := load_successors_le t.price g p
      rcases pays (queue ▸ List.mem_cons_self) arrived transferred settled changed with
        lower | ⟨stays, cheaper⟩
      · have freed := t.reserve_set_le 1 g.edges run.outputs lower
        dsimp only
        omega
      · have kept := t.reserve_set_le 0 g.edges run.outputs stays
        dsimp only
        omega

/-- A tariff pays for the runs of an analysis over a graph: what holds before the first visit and is
kept by visits makes every change be paid for. -/
structure PaysFor (t : Tariff α) (A : Analysis α) (config : Config) (f : FunctionDef) (g : Graph)
    (Inv : Run α → Prop) : Prop where
  total : ∀ p env, ∃ update, A.transfer p env = .ok update
  initial : ∀ {entry : Point}, g.entry = some entry → Inv (.initial entry)
  advance : ∀ {entry : Point} {run next : Run α}, g.entry = some entry → Inv run →
    A.Advances config f g entry run next → Inv next
  pays : ∀ {entry p : Point} {run : Run α} {input output : Env α} {update : Update α},
    g.entry = some entry → Inv run → p ∈ run.queue →
    A.inflow g run.outputs (A.seed? f entry p) p = some input → A.transfer p input = .ok update →
    Settled A g p (run.outputs.get? p) (input.updated update.bindings) output →
    run.outputs.get? p ≠ some output → t.Pays g p (run.outputs.get? p) output

/-- A run with as many visits left as its potential is drained in at most that many visits. -/
theorem PaysFor.exists_drain {Inv : Run α → Prop} (paysFor : t.PaysFor A config f g Inv)
    (isEntry : g.entry = some entry) {budget : Nat} {run : Run α} (holds : Inv run)
    (enough : t.potential g run ≤ budget) :
    ∃ final, A.drain config f g entry budget run = .ok final ∧
      final.iterations ≤ run.iterations + t.potential g run := by
  induction budget generalizing run with
  | zero =>
    -- No potential is left, so no point is queued.
    cases queue : run.queue with
    | nil => exact ⟨run, drain_of_empty queue 0, Nat.le_add_right _ _⟩
    | cons p rest =>
      have positive := t.positive p
      rw [potential, queue, load_cons] at enough
      omega
  | succ left ih =>
    cases queue : run.queue with
    | nil => exact ⟨run, drain_of_empty queue _, Nat.le_add_right _ _⟩
    | cons p rest =>
      obtain ⟨next, visited⟩ := exists_visit (paysFor.total p)
        { run with queue := rest, iterations := run.iterations + 1 }
      have advance : A.Advances config f g entry run next := ⟨p, rest, queue, visited⟩
      have less := potential_lt advance (paysFor.pays isEntry holds)
      have counted := iterations_visit visited
      obtain ⟨final, drained, few⟩ :=
        ih (paysFor.advance isEntry holds advance) (Nat.le_of_lt_succ (Nat.lt_of_lt_of_le less enough))
      refine ⟨final, (drain_of_advances advance left).trans drained, ?_⟩
      dsimp only at counted
      omega

/-- **A run that is allowed as many visits as the bound has a result, after at most that many.** -/
theorem PaysFor.exists_result {Inv : Run α → Prop} (paysFor : t.PaysFor A config f g Inv)
    (enough : t.bound g ≤ config.maxIterations) :
    ∃ result, A.runOn config f g = .ok result ∧ result.iterations ≤ t.bound g := by
  unfold runOn
  cases isEntry : g.entry with
  | none => exact ⟨.empty, rfl, Nat.zero_le _⟩
  | some entry =>
    have start : t.potential g (.initial entry) = t.bound g := by
      rw [potential, bound, isEntry]
      rfl
    obtain ⟨final, drained, few⟩ :=
      paysFor.exists_drain isEntry (paysFor.initial isEntry) (start.trans_le enough)
    dsimp only
    rw [drained]
    refine ⟨_, rfl, ?_⟩
    rw [start] at few
    exact few.trans_eq (Nat.zero_add _)

end Tariff

end Dataflow.Analysis
