import Dataflow.Proofs.Graph.Descent

/-!
# Graphs over any history

A history is a sequence of operations that makes a graph: points and edges are added one at a time,
whole graphs with histories of their own are merged in, the entry is set, or the graph of a function is
taken. On the lists of points and edges every operation keeps a graph well formed (`Graph.WellFormed`):
nothing is listed twice, and the ends of edges and the entry are among the points. The stored graph goes
along (`History.represents`), and so its numbers, links and queries agree with the lists at every moment
(`IndexedGraph.Exact`).

Merging a well-formed graph appends exactly what is missing, in its order (`Graph.WellFormed.merge_eq`).
A stored graph that has everything already takes nothing from another one but the entry
(`IndexedGraph.Consistent.merge_of_listed`), so that merging again changes nothing.
-/

set_option autoImplicit false

namespace Dataflow

/-! ## Missing entries -/

section Missing

variable {β : Type} [DecidableEq β]

/-- The entries of a list that are not among the known ones, in the order of the list. -/
def missing (known more : List β) : List β := more.filter (· ∉ known)

theorem mem_missing {known more : List β} {b : β} : b ∈ missing known more ↔ b ∈ more ∧ b ∉ known := by
  simp [missing]

theorem missing_cons_of_mem {known more : List β} {b : β} (found : b ∈ known) :
    missing known (b :: more) = missing known more := by
  simp [missing, found]

/-- An entry that is added before the later ones are looked up is not one of them. -/
theorem missing_cons_of_not_mem {known more : List β} {b : β} (fresh : b ∉ known) (once : b ∉ more) :
    missing known (b :: more) = b :: missing (known ++ [b]) more := by
  have same : missing (known ++ [b]) more = missing known more := by
    apply List.filter_congr
    intro c listed
    have different : c ≠ b := fun same => once (same ▸ listed)
    simp [different]
  rw [same]
  simp [missing, fresh]

/-- Nothing is missing from a list of known entries. -/
theorem missing_eq_nil {known more : List β} (all : ∀ b ∈ more, b ∈ known) : missing known more = [] := by
  rw [missing, List.filter_eq_nil_iff]
  intro b listed
  simp [all b listed]

/-- Everything is listed once the missing entries are added. -/
theorem mem_append_missing {more : List β} {b : β} (known : List β) (listed : b ∈ more) :
    b ∈ known ++ missing known more := by
  by_cases found : b ∈ known
  · exact List.mem_append_left _ found
  · exact List.mem_append_right _ (mem_missing.mpr ⟨listed, found⟩)

end Missing

namespace Graph

/-! ## Adding several points or edges -/

/-- A point that is listed is not added again. -/
theorem addPoint_of_mem {g : Graph} {p : Point} (found : p ∈ g.points) : g.addPoint p = g :=
  if_pos found

/-- A new point comes last. -/
theorem points_addPoint (g : Graph) (p : Point) : (g.addPoint p).points = g.points ++ missing g.points [p] := by
  by_cases found : p ∈ g.points
  · simp [addPoint, missing, found]
  · simp [addPoint, missing, found]

/-- A new edge comes last. -/
theorem edges_addEdge (g : Graph) (e : Edge) : (g.addEdge e).edges = g.edges ++ missing g.edges [e] := by
  by_cases found : e ∈ g.edges
  · simp [addEdge, missing, found]
  · simp [addEdge, missing, found]

/-- Points that differ from each other are appended where they are missing. -/
theorem foldl_addPoint_eq (points : List Point) (g : Graph) (distinct : points.Nodup) :
    points.foldl addPoint g = { g with points := g.points ++ missing g.points points } := by
  induction points generalizing g with
  | nil => simp [missing]
  | cons p rest ih =>
    obtain ⟨once, distinct'⟩ := List.nodup_cons.mp distinct
    rw [List.foldl_cons, ih _ distinct']
    by_cases found : p ∈ g.points
    · rw [addPoint_of_mem found, missing_cons_of_mem found]
    · have added : g.addPoint p = { g with points := g.points ++ [p] } := if_neg found
      rw [added, missing_cons_of_not_mem found once]
      simp

/-- An edge between listed points leaves the points alone. -/
theorem addEdge_of_mem {g : Graph} {e : Edge} (source : e.source ∈ g.points)
    (target : e.target ∈ g.points) :
    g.addEdge e = if e ∈ g.edges then g else { g with edges := g.edges ++ [e] } := by
  rw [addEdge, addPoint_of_mem source, addPoint_of_mem target]

/-- Edges between listed points that differ from each other are appended where they are missing. -/
theorem foldl_addEdge_eq (edges : List Edge) (g : Graph) (distinct : edges.Nodup)
    (ends : ∀ e ∈ edges, e.source ∈ g.points ∧ e.target ∈ g.points) :
    edges.foldl addEdge g = { g with edges := g.edges ++ missing g.edges edges } := by
  induction edges generalizing g with
  | nil => simp [missing]
  | cons e rest ih =>
    obtain ⟨once, distinct'⟩ := List.nodup_cons.mp distinct
    obtain ⟨source, target⟩ := ends e List.mem_cons_self
    have later : ∀ e' ∈ rest, e'.source ∈ g.points ∧ e'.target ∈ g.points := by
      intro e' listed
      exact ends e' (List.mem_cons_of_mem _ listed)
    rw [List.foldl_cons, addEdge_of_mem source target]
    by_cases found : e ∈ g.edges
    · rw [if_pos found, ih g distinct' later, missing_cons_of_mem found]
    · rw [if_neg found, ih { g with edges := g.edges ++ [e] } distinct' later,
        missing_cons_of_not_mem found once]
      simp

/-! ## Well-formed graphs -/

/-- Nothing is listed twice, and the ends of edges and the entry are listed. -/
structure WellFormed (g : Graph) : Prop where
  points_nodup : g.points.Nodup
  edges_nodup : g.edges.Nodup
  ends_listed : ∀ e ∈ g.edges, e.source ∈ g.points ∧ e.target ∈ g.points
  entry_listed : ∀ p ∈ g.entry, p ∈ g.points

/-- The graph without points is well formed. -/
theorem wellFormed_empty : empty.WellFormed where
  points_nodup := List.nodup_nil
  edges_nodup := List.nodup_nil
  ends_listed := by
    intro e listed
    cases listed
  entry_listed := by
    intro p present
    cases present

theorem WellFormed.addPoint {g : Graph} (fine : g.WellFormed) (p : Point) : (g.addPoint p).WellFormed := by
  by_cases found : p ∈ g.points
  · rw [addPoint_of_mem found]
    exact fine
  · have added : g.addPoint p = { g with points := g.points ++ [p] } := if_neg found
    rw [added]
    constructor
    · exact List.concat_eq_append ▸ List.Nodup.concat found fine.points_nodup
    · exact fine.edges_nodup
    · intro e listed
      exact (fine.ends_listed e listed).imp (List.mem_append_left _) (List.mem_append_left _)
    · intro q present
      exact List.mem_append_left _ (fine.entry_listed q present)

theorem WellFormed.addEdge {g : Graph} (fine : g.WellFormed) (e : Edge) : (g.addEdge e).WellFormed := by
  -- The ends are added first, so the edge itself joins listed points.
  have both : ((g.addPoint e.source).addPoint e.target).WellFormed := (fine.addPoint _).addPoint _
  have source : e.source ∈ ((g.addPoint e.source).addPoint e.target).points := by simp
  have target : e.target ∈ ((g.addPoint e.source).addPoint e.target).points := by simp
  unfold Graph.addEdge
  generalize (g.addPoint e.source).addPoint e.target = h at both source target ⊢
  dsimp only
  split
  · exact both
  · next fresh =>
    constructor
    · exact both.points_nodup
    · exact List.concat_eq_append ▸ List.Nodup.concat fresh both.edges_nodup
    · intro e' listed
      rcases List.mem_append.mp listed with before | new
      · exact both.ends_listed e' before
      · rw [List.mem_singleton.mp new]
        exact ⟨source, target⟩
    · exact both.entry_listed

theorem WellFormed.foldl_addEdge {g : Graph} (fine : g.WellFormed) (edges : List Edge) :
    (edges.foldl Graph.addEdge g).WellFormed := by
  induction edges generalizing g with
  | nil => exact fine
  | cons e rest ih => exact ih (fine.addEdge e)

theorem WellFormed.connect {g : Graph} (fine : g.WellFormed) (exits : List Exit) (target : Point) :
    (g.connect exits target).WellFormed := by
  rw [connect_eq_foldl]
  exact fine.foldl_addEdge _

theorem WellFormed.setEntry {g : Graph} (fine : g.WellFormed) (p : Point) : (g.setEntry p).WellFormed := by
  obtain ⟨points, edges, ends, -⟩ := fine.addPoint p
  constructor
  · exact points
  · exact edges
  · exact ends
  · intro q present
    cases present
    show p ∈ (g.addPoint p).points
    simp

/-! ## Merging -/

/-- **Merging appends exactly what is missing**, and takes the entry only when there is none. -/
theorem WellFormed.merge_eq {h : Graph} (fine : h.WellFormed) (g : Graph) :
    g.merge h = ⟨g.points ++ missing g.points h.points, g.edges ++ missing g.edges h.edges,
      g.entry.or h.entry⟩ := by
  have ends : ∀ e ∈ h.edges, e.source ∈ g.points ++ missing g.points h.points ∧
      e.target ∈ g.points ++ missing g.points h.points := by
    intro e listed
    exact (fine.ends_listed e listed).imp (mem_append_missing _) (mem_append_missing _)
  rw [merge, foldl_addPoint_eq h.points g fine.points_nodup,
    foldl_addEdge_eq h.edges _ fine.edges_nodup ends]

theorem WellFormed.merge {g h : Graph} (fine : g.WellFormed) (fine' : h.WellFormed) :
    (g.merge h).WellFormed := by
  have disjoint {β : Type} [DecidableEq β] (known more : List β) :
      known.Disjoint (missing known more) := by
    intro b found new
    exact (mem_missing.mp new).2 found
  have all : ∀ p, p ∈ h.points → p ∈ (g.merge h).points := by
    intro p listed
    exact mem_points_merge (Or.inr listed)
  have kept : ∀ p, p ∈ g.points → p ∈ (g.merge h).points := by
    intro p listed
    exact mem_points_merge (Or.inl listed)
  constructor
  · rw [fine'.merge_eq g]
    exact fine.points_nodup.append (fine'.points_nodup.filter _) (disjoint _ _)
  · rw [fine'.merge_eq g]
    exact fine.edges_nodup.append (fine'.edges_nodup.filter _) (disjoint _ _)
  · intro e listed
    rcases mem_edges_merge.mp listed with before | new
    · exact (fine.ends_listed e before).imp (kept _) (kept _)
    · exact (fine'.ends_listed e new).imp (all _) (all _)
  · intro p present
    have either : g.entry.or h.entry = some p := by
      rw [← present, fine'.merge_eq g]
    rcases Option.or_eq_some_iff.mp either with own | ⟨-, other⟩
    · exact kept p (fine.entry_listed p own)
    · exact all p (fine'.entry_listed p other)

/-! ## Graphs of functions -/

mutual

theorem wellFormed_ofStatement : ∀ s : Stmt, (ofStatement s).2.WellFormed
  | .assign _ _ _ => wellFormed_empty.addPoint _
  | .ifElse _ _ thenBody elseBody =>
    ((wellFormed_empty.addPoint _).merge (wellFormed_ofSequence thenBody _ _ wellFormed_empty)).merge
      (wellFormed_ofSequence elseBody _ _ wellFormed_empty)
  | .loop _ _ body =>
    ((wellFormed_empty.addPoint _).merge (wellFormed_ofSequence body _ _ wellFormed_empty)).connect _ _
  | .ret _ _ => wellFormed_empty.addPoint _

theorem wellFormed_ofSequence : ∀ (ss : List Stmt) (g : Graph) (exits : List Exit), g.WellFormed →
    (ofSequence g exits ss).2.WellFormed
  | [], _, _, fine => fine
  | s :: rest, _, exits, fine =>
    wellFormed_ofSequence rest _ _
      (((fine.addPoint ⟨s⟩).connect exits ⟨s⟩).merge (wellFormed_ofStatement s))

end

/-- The graph of a function is well formed: its entry is a statement of the body. -/
theorem wellFormed_build (f : FunctionDef) : (build f).WellFormed := by
  obtain ⟨points, edges, ends, -⟩ := wellFormed_ofSequence f.body empty [] wellFormed_empty
  have entry : ∀ p ∈ (build f).entry, p ∈ (build f).points := fun p present =>
    mem_points_of_occurrence (mem_occurrencesIn_of_visitable (Or.inl present))
  rw [build_eq] at entry ⊢
  exact ⟨points, edges, ends, entry⟩

end Graph

/-! ## Stored graphs that have everything already -/

namespace IndexedGraph

open Dataflow.Graph

variable {g h : IndexedGraph} {p : Point} {e : Edge}

/-- The ends of an edge are listed. -/
theorem ends_mem_points (listed : e ∈ g.edges) : e.source ∈ g.points ∧ e.target ∈ g.points := by
  obtain ⟨link, -, found⟩ := List.mem_filterMap.mp listed
  obtain ⟨source, target, -⟩ := edge?_eq_some_iff.mp found
  exact ⟨List.mem_of_getElem? source, List.mem_of_getElem? target⟩

namespace Consistent

theorem addPoint_of_mem (fine : g.Consistent) (found : p ∈ g.points) : (g.addPoint p).2 = g := by
  rcases fine.addPoint_cases p with ⟨i, -, same⟩ | ⟨fresh, -⟩
  · rw [same]
  · exact absurd found fresh

/-- A new point comes last. -/
theorem points_addPoint (fine : g.Consistent) (p : Point) :
    (g.addPoint p).2.points = g.points ++ missing g.points [p] := by
  rw [← points_graph, fine.graph_addPoint, Graph.points_addPoint, points_graph]

theorem edges_addPoint (fine : g.Consistent) (p : Point) : (g.addPoint p).2.edges = g.edges := by
  rw [← edges_graph, fine.graph_addPoint, Graph.edges_addPoint, edges_graph]

/-- A new edge comes last. -/
theorem edges_addEdge (fine : g.Consistent) (e : Edge) :
    (g.addEdge e).2.edges = g.edges ++ missing g.edges [e] := by
  have same : g.Represents g.graph := ⟨fine, rfl⟩
  rw [← edges_graph, (same.addEdge e).graph_eq, Graph.edges_addEdge, edges_graph]

/-- Adding an edge says whether it is new. -/
theorem addEdge_eq_true_iff (fine : g.Consistent) (e : Edge) : (g.addEdge e).1 = true ↔ e ∉ g.edges := by
  obtain ⟨h, i, j, ends, -, -, -, either⟩ := fine.addEdge_cases e
  have same : h.edges = g.edges := by
    rw [ends, (fine.addPoint e.source).edges_addPoint, fine.edges_addPoint]
  rw [← same]
  rcases either with ⟨listed, known⟩ | ⟨fresh, new⟩
  · simp [known, listed]
  · simp [new, fresh]

theorem addEdge_of_mem (fine : g.Consistent) (listed : e ∈ g.edges) : (g.addEdge e).2 = g := by
  obtain ⟨source, target⟩ := ends_mem_points listed
  obtain ⟨h, i, j, ends, -, -, -, either⟩ := fine.addEdge_cases e
  rw [fine.addPoint_of_mem source, fine.addPoint_of_mem target] at ends
  subst ends
  rcases either with ⟨-, known⟩ | ⟨fresh, -⟩
  · rw [known]
  · exact absurd listed fresh

/-- A graph with all points and edges of another one only takes its entry, and keeps its numbers. -/
theorem merge_of_listed (fine : g.Consistent) (points : ∀ p ∈ h.points, p ∈ g.points)
    (edges : ∀ e ∈ h.edges, e ∈ g.edges) : g.merge h = { g with entry := g.entry.or h.entry } := by
  have first : h.points.foldl (fun g p => (g.addPoint p).2) g = g := by
    refine List.foldlRecOn h.points _ (motive := (· = g)) rfl fun g' same p listed => ?_
    rw [same]
    exact fine.addPoint_of_mem (points p listed)
  have second : h.edges.foldl (fun g e => (g.addEdge e).2) g = g := by
    refine List.foldlRecOn h.edges _ (motive := (· = g)) rfl fun g' same e listed => ?_
    rw [same]
    exact fine.addEdge_of_mem (edges e listed)
  simp only [merge, first, second]

end Consistent

/-! ## Exact graphs -/

/-- The list of points, the table of numbers and the links of a stored graph tell the same, without
repetitions, and queries that go through the table answer by the lists. -/
structure Exact (g : IndexedGraph) : Prop where
  points_nodup : g.points.Nodup
  /-- The table has the points of the list. -/
  contains_iff : ∀ p, g.contains p = true ↔ p ∈ g.points
  /-- The number of a point is its place in the list. -/
  number_iff : ∀ p i, g.numbers.get? p = some i ↔ g.points[i]? = some p
  /-- Every link stands for an edge. -/
  links_resolved : g.links.map g.edge? = g.edges.map some
  edges_nodup : g.edges.Nodup
  ends_listed : ∀ e ∈ g.edges, e.source ∈ g.points ∧ e.target ∈ g.points
  entry_listed : ∀ p ∈ g.entry, p ∈ g.points
  outgoing_eq : ∀ p, g.outgoing p = (g.edges.filter (·.source = p)).map fun e => (e.target, e.label)
  incoming_eq : ∀ p, g.incoming p = (g.edges.filter (·.target = p)).map fun e => (e.source, e.label)
  successors_eq : ∀ p, g.successors p = g.graph.successors p
  predecessors_eq : ∀ p, g.predecessors p = g.graph.predecessors p
  isLoopHead_eq : ∀ p, g.isLoopHead p = g.graph.isLoopHead p

/-- A consistent graph is exact when its lists are well formed. -/
theorem Consistent.exact (fine : g.Consistent) (lists : g.graph.WellFormed) : g.Exact where
  points_nodup := fine.nodup_points
  contains_iff := fine.contains_iff
  number_iff := fine.number_iff
  links_resolved := fine.map_edge?
  edges_nodup := lists.edges_nodup
  ends_listed := lists.ends_listed
  entry_listed := lists.entry_listed
  outgoing_eq := fine.outgoing_eq
  incoming_eq := fine.incoming_eq
  successors_eq := fine.successors_eq
  predecessors_eq := fine.predecessors_eq
  isLoopHead_eq := fine.isLoopHead_eq

end IndexedGraph

/-! ## Histories -/

/-- The operations that made a graph. -/
inductive History where
  /-- The graph without points. -/
  | new
  /-- A point was added. -/
  | addPoint (before : History) (p : Point)
  /-- An edge was added. -/
  | addEdge (before : History) (e : Edge)
  /-- A graph with a history of its own was merged in. -/
  | merge (before other : History)
  /-- The entry was set. -/
  | setEntry (before : History) (p : Point)
  /-- The graph of a function was taken. -/
  | build (f : FunctionDef)

namespace History

open Dataflow.Graph IndexedGraph

/-- The stored graph that a history leads to. -/
def stored : History → IndexedGraph
  | new => .empty
  | addPoint before p => (before.stored.addPoint p).2
  | addEdge before e => (before.stored.addEdge e).2
  | merge before other => before.stored.merge other.stored
  | setEntry before p => before.stored.setEntry p
  | build f => .build f

/-- The lists of points and edges that a history leads to. -/
def graph : History → Graph
  | new => .empty
  | addPoint before p => before.graph.addPoint p
  | addEdge before e => before.graph.addEdge e
  | merge before other => before.graph.merge other.graph
  | setEntry before p => before.graph.setEntry p
  | build f => .build f

/-- **A history does the same to the stored graph as to the lists.** -/
theorem represents (history : History) : history.stored.Represents history.graph := by
  induction history with
  | new => exact .empty
  | addPoint before p ih => exact ih.addPoint p
  | addEdge before e ih => exact ih.addEdge e
  | merge before other ih ih' => exact ih.merge ih'
  | setEntry before p ih => exact ih.setEntry p
  | build f => exact represents_build f

/-- **Every history leads to a well-formed graph.** -/
theorem wellFormed (history : History) : history.graph.WellFormed := by
  induction history with
  | new => exact wellFormed_empty
  | addPoint before p ih => exact ih.addPoint p
  | addEdge before e ih => exact ih.addEdge e
  | merge before other ih ih' => exact ih.merge ih'
  | setEntry before p ih => exact ih.setEntry p
  | build f => exact wellFormed_build f

theorem exact (history : History) : history.stored.Exact := by
  have same := history.represents
  apply same.consistent.exact
  rw [same.graph_eq]
  exact history.wellFormed

/-- Merging appends what is missing. -/
theorem graph_merge (history other : History) : (history.stored.merge other.stored).graph =
    ⟨history.stored.points ++ missing history.stored.points other.stored.points,
      history.stored.edges ++ missing history.stored.edges other.stored.edges,
      history.stored.entry.or other.stored.entry⟩ := by
  rw [(history.represents.merge other.represents).graph_eq, other.wellFormed.merge_eq,
    ← history.represents.graph_eq, ← other.represents.graph_eq]
  rfl

theorem points_merge (history other : History) : (history.stored.merge other.stored).points =
    history.stored.points ++ missing history.stored.points other.stored.points := by
  rw [← points_graph, graph_merge]

theorem edges_merge (history other : History) : (history.stored.merge other.stored).edges =
    history.stored.edges ++ missing history.stored.edges other.stored.edges := by
  rw [← edges_graph, graph_merge]

theorem entry_merge (history other : History) : (history.stored.merge other.stored).entry =
    history.stored.entry.or other.stored.entry := by
  rw [← entry_graph, graph_merge]

/-- **Merging a graph a second time changes nothing**, not even a number. -/
theorem merge_merge (history other : History) :
    (history.stored.merge other.stored).merge other.stored = history.stored.merge other.stored := by
  have fine := (history.represents.merge other.represents).consistent
  have points : ∀ p ∈ other.stored.points, p ∈ (history.stored.merge other.stored).points := by
    intro p listed
    rw [points_merge]
    exact mem_append_missing _ listed
  have edges : ∀ e ∈ other.stored.edges, e ∈ (history.stored.merge other.stored).edges := by
    intro e listed
    rw [edges_merge]
    exact mem_append_missing _ listed
  have entry : (history.stored.merge other.stored).entry.or other.stored.entry =
      (history.stored.merge other.stored).entry := by
    rw [entry_merge, Option.or_assoc, Option.or_self]
  rw [fine.merge_of_listed points edges, entry]

/-- Merging a graph into its own copy changes nothing. -/
theorem merge_self (history : History) : history.stored.merge history.stored = history.stored := by
  have fine := history.represents.consistent
  rw [fine.merge_of_listed (fun _ listed => listed) (fun _ listed => listed), Option.or_self]

/-- **Stored graphs are exact over any history.** Whatever operations made a graph: its table of numbers
has exactly the points of its list, each under its place; it lists no point and no edge twice; the ends of
its edges and its entry are points of it; and the edges at a point, which are found through the table and
walked newest first, are those of the list of edges in its order (`Exact`). A new point comes last and its
number is returned; a new edge comes last, and whether it is new is returned. Merging keeps the first
graph's points and edges as they are, appends exactly the missing ones of the second in its order,
whatever their numbers there, and takes the second's entry only when the first has none. Merging again, or
merging a graph into its own copy, changes nothing, the table of numbers included. -/
theorem graphs_exact_over_histories (history other : History) :
    history.stored.Exact ∧
    (∀ p, (history.stored.addPoint p).2.points =
        history.stored.points ++ missing history.stored.points [p] ∧
      (history.stored.addPoint p).2.points[(history.stored.addPoint p).1]? = some p) ∧
    (∀ e, (history.stored.addEdge e).2.edges =
        history.stored.edges ++ missing history.stored.edges [e] ∧
      ((history.stored.addEdge e).1 = true ↔ e ∉ history.stored.edges)) ∧
    (history.stored.merge other.stored).points =
      history.stored.points ++ missing history.stored.points other.stored.points ∧
    (history.stored.merge other.stored).edges =
      history.stored.edges ++ missing history.stored.edges other.stored.edges ∧
    (history.stored.merge other.stored).entry = history.stored.entry.or other.stored.entry ∧
    (history.stored.merge other.stored).merge other.stored = history.stored.merge other.stored ∧
    history.stored.merge history.stored = history.stored := by
  have fine := history.represents.consistent
  exact ⟨history.exact, fun p => ⟨fine.points_addPoint p, fine.getElem?_addPoint p⟩,
    fun e => ⟨fine.edges_addEdge e, fine.addEdge_eq_true_iff e⟩, history.points_merge other,
    history.edges_merge other, history.entry_merge other, history.merge_merge other, history.merge_self⟩

end History

end Dataflow
