import Dataflow.Proofs.Graph.History
import Mathlib.Data.List.Perm.Subperm
import Mathlib.Logic.Relation

/-!
# The search finds what paths lead to

`Connected` says that a path of edges, possibly without any edge, leads from one point to another. The
search keeps two facts: what it found is connected to where it started (`Searching.connected`), and what
it found and expanded has all its successors among the found points (`Searching.closed`). When nothing is
pending, the found points are therefore exactly the connected ones.

Every point is found once and expanded once, so as many expansions as there are points leave nothing
pending (`Searching.search`). In a well-formed graph the answer is exact for every start
(`mem_reachableFrom_iff`).
-/

set_option autoImplicit false

namespace Dataflow.Graph

open Analysis

/-- An edge leads from one point to another. -/
def Joins (g : Graph) (p q : Point) : Prop := ∃ e ∈ g.edges, e.source = p ∧ e.target = q

/-- A path of edges leads from one point to another. -/
abbrev Connected (g : Graph) : Point → Point → Prop := Relation.ReflTransGen g.Joins

theorem mem_successors_iff_joins {g : Graph} {p q : Point} : q ∈ g.successors p ↔ g.Joins p q :=
  mem_successors

/-- In a well-formed graph a path from a point of the graph stays in the graph. -/
theorem WellFormed.mem_points_of_connected {g : Graph} (fine : g.WellFormed) {p q : Point}
    (listed : p ∈ g.points) (path : g.Connected p q) : q ∈ g.points := by
  induction path with
  | refl => exact listed
  | tail _ joins _ =>
    obtain ⟨e, found, -, rfl⟩ := joins
    exact (fine.ends_listed e found).2

/-! ## Successors are listed once -/

theorem nodup_distinct (points : List Point) : (distinct points).Nodup := by
  induction points with
  | nil => exact List.nodup_nil
  | cons p rest ih =>
    rw [distinct]
    apply List.Nodup.cons
    · intro again
      simpa using (List.mem_filter.mp again).2
    · exact ih.filter _

theorem nodup_successors (g : Graph) (p : Point) : (g.successors p).Nodup := nodup_distinct _

/-! ## The search -/

/-- The state of a search from a point: the found points, of which some are pending. -/
structure Searching (g : Graph) (start : Point) (found pending : List Point) : Prop where
  start_found : start ∈ found
  distinct : found.Nodup
  listed : ∀ p ∈ found, p ∈ g.points
  connected : ∀ p ∈ found, g.Connected start p
  pending_found : ∀ p ∈ pending, p ∈ found
  /-- The successors of the expanded points are found. -/
  closed : ∀ p ∈ found, p ∉ pending → ∀ q ∈ g.successors p, q ∈ found

variable {g : Graph} {start p : Point} {found pending : List Point}

/-- A search begins with its start pending. -/
theorem searching_start (listed : start ∈ g.points) : Searching g start [start] [start] where
  start_found := List.mem_singleton_self start
  distinct := List.nodup_singleton start
  listed := by
    intro p here
    exact List.mem_singleton.mp here ▸ listed
  connected := by
    intro p here
    exact List.mem_singleton.mp here ▸ .refl
  pending_found := fun p here => here
  closed := fun p here expanded => absurd here expanded

/-- **Expanding the first pending point keeps the state of a search.** -/
theorem Searching.expand (fine : g.WellFormed) (state : Searching g start found (p :: pending)) :
    Searching g start (found ++ (g.successors p).filter (· ∉ found))
      (pending ++ (g.successors p).filter (· ∉ found)) := by
  have here : p ∈ found := state.pending_found p List.mem_cons_self
  -- Whatever is new is a successor of the expanded point that was not found before.
  have fresh : ∀ {q}, q ∈ (g.successors p).filter (· ∉ found) → g.Joins p q ∧ q ∉ found := by
    intro q new
    obtain ⟨successor, unknown⟩ := List.mem_filter.mp new
    exact ⟨mem_successors_iff_joins.mp successor, of_decide_eq_true unknown⟩
  have path : ∀ {q}, q ∈ (g.successors p).filter (· ∉ found) → g.Connected start q := by
    intro q new
    exact (state.connected p here).tail (fresh new).1
  constructor
  · exact List.mem_append_left _ state.start_found
  · apply state.distinct.append ((nodup_successors g p).filter _)
    intro q old new
    exact (fresh new).2 old
  · intro q there
    rcases List.mem_append.mp there with old | new
    · exact state.listed q old
    · exact fine.mem_points_of_connected (state.listed start state.start_found) (path new)
  · intro q there
    rcases List.mem_append.mp there with old | new
    · exact state.connected q old
    · exact path new
  · intro q there
    rcases List.mem_append.mp there with old | new
    · exact List.mem_append_left _ (state.pending_found q (List.mem_cons_of_mem p old))
    · exact List.mem_append_right _ new
  · intro q there expanded r successor
    rw [List.mem_append, not_or] at expanded
    have old : q ∈ found := (List.mem_append.mp there).resolve_right expanded.2
    by_cases same : q = p
    · -- The successors of the point that is expanded now are found or new.
      subst same
      by_cases known : r ∈ found
      · exact List.mem_append_left _ known
      · exact List.mem_append_right _ (List.mem_filter.mpr ⟨successor, decide_eq_true known⟩)
    · apply List.mem_append_left
      apply state.closed q old _ r successor
      intro again
      exact (List.mem_cons.mp again).elim same expanded.1

/-- No more points are found than the graph has. -/
theorem Searching.length_le (state : Searching g start found pending) :
    found.length ≤ g.points.length :=
  (List.Nodup.subperm state.distinct state.listed).length_le

/-- **A search with enough expansions left ends with nothing pending.** Each expansion uses up one of
those left and one of the pending points, and what it adds to these it adds to the found points. -/
theorem Searching.search (fine : g.WellFormed) {budget : Nat}
    (state : Searching g start found pending)
    (enough : g.points.length + pending.length = found.length + budget) :
    Searching g start (g.search budget found pending) [] := by
  induction budget generalizing found pending with
  | zero =>
    have bounded := state.length_le
    have done : pending = [] := List.eq_nil_of_length_eq_zero (by omega)
    subst done
    exact state
  | succ left ih =>
    cases pending with
    | nil => exact state
    | cons p rest =>
      apply ih (state.expand fine)
      simp only [List.length_append, List.length_cons] at enough ⊢
      omega

/-- When nothing is pending, exactly the connected points are found. -/
theorem Searching.mem_found_iff (state : Searching g start found []) :
    p ∈ found ↔ g.Connected start p := by
  constructor
  · exact state.connected p
  · intro path
    induction path with
    | refl => exact state.start_found
    | tail _ joins ih =>
      exact state.closed _ ih List.not_mem_nil _ (mem_successors_iff_joins.mpr joins)

/-- The whole search from a point of the graph. -/
theorem searching_reachableFrom (fine : g.WellFormed) (listed : start ∈ g.points) :
    Searching g start (g.reachableFrom start) [] := by
  rw [reachableFrom, if_pos listed]
  exact (searching_start listed).search fine (Nat.add_comm _ _)

/-- **The points found from a start are the points that paths lead to from there.** -/
theorem mem_reachableFrom_iff (fine : g.WellFormed) :
    p ∈ g.reachableFrom start ↔ start ∈ g.points ∧ g.Connected start p := by
  by_cases listed : start ∈ g.points
  · rw [(searching_reachableFrom fine listed).mem_found_iff]
    exact (and_iff_right listed).symm
  · rw [reachableFrom, if_neg listed]
    exact iff_of_false List.not_mem_nil fun both => listed both.1

/-- No point is found twice. -/
theorem nodup_reachableFrom (fine : g.WellFormed) (start : Point) :
    (g.reachableFrom start).Nodup := by
  by_cases listed : start ∈ g.points
  · exact (searching_reachableFrom fine listed).distinct
  · rw [reachableFrom, if_neg listed]
    exact List.nodup_nil

end Dataflow.Graph
