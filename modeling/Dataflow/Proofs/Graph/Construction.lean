import Dataflow.Graph.Build
import Mathlib.Data.List.Nodup

/-!
# Graphs under construction

A graph is stored with numbered points while it grows. Its table of numbers and its list of points are two
accounts of the same points; they agree in a consistent graph (`Consistent`), whose links all stand for
edges. Every operation keeps a graph consistent and does to its lists of points and edges what the
operation of the same name does here on lists (`Represents`), whatever the numbers are. So the graph of a
function can be taken from lists alone (`Graph.build_eq`).
-/

set_option autoImplicit false

namespace Dataflow

namespace Graph

/-! ## Construction on lists -/

/-- The graph without points. -/
def empty : Graph := ⟨[], [], none⟩

/-- The graph with a point, added at the end when it is new. -/
def addPoint (g : Graph) (p : Point) : Graph :=
  if p ∈ g.points then g else { g with points := g.points ++ [p] }

/-- The graph with an edge and its ends, each added at the end when it is new. -/
def addEdge (g : Graph) (e : Edge) : Graph :=
  let g := (g.addPoint e.source).addPoint e.target
  if e ∈ g.edges then g else { g with edges := g.edges ++ [e] }

/-- The first graph with the points and edges of the second; the entry of the first counts when it
has one. -/
def merge (g h : Graph) : Graph :=
  let g := h.edges.foldl addEdge (h.points.foldl addPoint g)
  { g with entry := g.entry.or h.entry }

/-- The graph with a given entry, which becomes one of its points. -/
def setEntry (g : Graph) (p : Point) : Graph :=
  { g.addPoint p with entry := some p }

/-- The graph with an edge from every exit to a point. -/
def connect (g : Graph) (exits : List Exit) (target : Point) : Graph :=
  exits.foldl (fun h exit => h.addEdge (exit.edgeTo target)) g

mutual

/-- The open exits and the graph of a statement. -/
def ofStatement : Stmt → List Exit × Graph
  | .assign line target value =>
    let p : Point := ⟨.assign line target value⟩
    ([.fallthrough p], empty.addPoint p)
  | .ifElse line condition thenBody elseBody =>
    let p : Point := ⟨.ifElse line condition thenBody elseBody⟩
    let yes := ofSequence empty [⟨p, condition, .whenTrue⟩] thenBody
    let no := ofSequence empty [⟨p, condition.negate, .whenFalse⟩] elseBody
    (yes.1 ++ no.1, ((empty.addPoint p).merge yes.2).merge no.2)
  | .loop line condition body =>
    let p : Point := ⟨.loop line condition body⟩
    let inner := ofSequence empty [⟨p, condition, .whenTrue⟩] body
    ([⟨p, condition.negate, .whenFalse⟩], ((empty.addPoint p).merge inner.2).connect inner.1 p)
  | .ret line value => ([], empty.addPoint ⟨.ret line value⟩)

/-- The open exits and the graph of a sequence that continues the graph `g` with the open exits
`exits`. -/
def ofSequence (g : Graph) (exits : List Exit) : List Stmt → List Exit × Graph
  | [] => (exits, g)
  | s :: rest =>
    let p : Point := ⟨s⟩
    let own := ofStatement s
    ofSequence (((g.addPoint p).connect exits p).merge own.2) own.1 rest

end

end Graph

/-- The places of a list with one more entry at its end. -/
theorem getElem?_concat_eq_some_iff {β : Type} {entries : List β} {last b : β} {i : Nat} :
    (entries ++ [last])[i]? = some b ↔ entries[i]? = some b ∨ i = entries.length ∧ last = b := by
  rcases Nat.lt_trichotomy i entries.length with before | rfl | after
  · simp [List.getElem?_append_left before, Nat.ne_of_lt before]
  · simp
  · have outside : (entries ++ [last])[i]? = none := List.getElem?_eq_none (by simp; omega)
    have outside' : entries[i]? = none := List.getElem?_eq_none (Nat.le_of_lt after)
    simp [outside, outside', Nat.ne_of_gt after]

namespace IndexedGraph

variable {g h : IndexedGraph} {p : Point} {e : Edge} {link : Link}

@[simp] theorem points_graph (g : IndexedGraph) : g.graph.points = g.points := rfl

@[simp] theorem edges_graph (g : IndexedGraph) : g.graph.edges = g.edges := rfl

@[simp] theorem entry_graph (g : IndexedGraph) : g.graph.entry = g.entry := rfl

/-! ## Consistent graphs -/

/-- The number of a point is its place in the list, and links are between places of the list. -/
structure Consistent (g : IndexedGraph) : Prop where
  number_iff : ∀ p i, g.numbers.get? p = some i ↔ g.points[i]? = some p
  inside : ∀ link ∈ g.links, link.source < g.points.length ∧ link.target < g.points.length

theorem edge?_eq_some_iff : g.edge? link = some e ↔
    g.points[link.source]? = some e.source ∧ g.points[link.target]? = some e.target ∧
      link.label = e.label := by
  obtain ⟨source, target, label⟩ := e
  simp [edge?, Option.bind_eq_some_iff]

/-- A link between listed points stands for the same edge when more points are listed. -/
theorem edge?_append (numbers : Table Point Nat) (more : List Point)
    (source : link.source < g.points.length) (target : link.target < g.points.length) :
    { g with points := g.points ++ more, numbers := numbers : IndexedGraph }.edge? link =
      g.edge? link := by
  simp only [edge?, List.getElem?_append_left source, List.getElem?_append_left target]

/-- The links between two numbered points are found from the first one. -/
theorem mem_connecting {i j : Nat} : link ∈ g.connecting i j ↔
    link ∈ g.links ∧ link.source = i ∧ link.target = j := by
  have walked : link ∈ (g.linksAt .outgoing i).map (·.1) ↔ link ∈ g.links ∧ link.source = i := by
    simp only [linksAt, List.mem_map, List.mem_reverse, List.mem_filter]
    constructor
    · rintro ⟨found, ⟨listed, here⟩, rfl⟩
      exact ⟨List.fst_mem_of_mem_zipIdx listed, of_decide_eq_true here⟩
    · rintro ⟨listed, here⟩
      obtain ⟨place, found⟩ := List.mem_iff_getElem?.mp listed
      exact ⟨(link, place), ⟨List.mem_zipIdx_iff_getElem?.mpr found, decide_eq_true here⟩, rfl⟩
  rw [connecting, List.mem_filter, walked, decide_eq_true_eq, and_assoc]

namespace Consistent

theorem empty : IndexedGraph.empty.Consistent where
  number_iff p i := by simp [IndexedGraph.empty]
  inside link listed := by simp [IndexedGraph.empty] at listed

/-- No point has two places, since it has one number. -/
theorem place_unique (fine : g.Consistent) {i j : Nat} (first : g.points[i]? = some p)
    (second : g.points[j]? = some p) : i = j := by
  rw [← fine.number_iff] at first second
  exact Option.some.inj (first.symm.trans second)

theorem nodup_points (fine : g.Consistent) : g.points.Nodup := by
  rw [List.nodup_iff_getElem?_ne_getElem?]
  intro i j before inside same
  have last := List.getElem?_eq_getElem inside
  exact Nat.ne_of_lt before (fine.place_unique (same.trans last) last)

/-- A point has a number exactly when it is listed. -/
theorem contains_iff (fine : g.Consistent) (p : Point) : g.contains p = true ↔ p ∈ g.points := by
  rw [contains, Table.contains, Option.isSome_iff_exists, List.mem_iff_getElem?]
  exact exists_congr (fine.number_iff p)

/-- Every link stands for an edge. -/
theorem exists_edge (fine : g.Consistent) (listed : link ∈ g.links) : ∃ e, g.edge? link = some e := by
  obtain ⟨source, target⟩ := fine.inside link listed
  exact ⟨⟨g.points[link.source], g.points[link.target], link.label⟩, by simp [edge?, source, target]⟩

theorem map_edge? (fine : g.Consistent) : g.links.map g.edge? = g.edges.map some := by
  have resolved : ∀ link ∈ g.links, ∃ e, g.edge? link = some e := fun _ => fine.exists_edge
  rw [edges]
  generalize g.links = links at resolved
  induction links with
  | nil => rfl
  | cons link rest ih =>
    obtain ⟨e, found⟩ := resolved link List.mem_cons_self
    rw [List.map_cons, List.filterMap_cons_some found, List.map_cons, found,
      ih fun other listed => resolved other (List.mem_cons_of_mem _ listed)]

/-- An edge is listed exactly when there is a link between the numbers of its ends. -/
theorem mem_edges_iff (fine : g.Consistent) {i j : Nat} (source : g.points[i]? = some e.source)
    (target : g.points[j]? = some e.target) : e ∈ g.edges ↔ ⟨i, j, e.label⟩ ∈ g.links := by
  rw [edges, List.mem_filterMap]
  constructor
  · rintro ⟨link, listed, found⟩
    obtain ⟨source', target', label⟩ := edge?_eq_some_iff.mp found
    rw [fine.place_unique source source', fine.place_unique target target', ← label]
    exact listed
  · intro listed
    exact ⟨_, listed, edge?_eq_some_iff.mpr ⟨source, target, rfl⟩⟩

/-! ## Adding points and edges -/

/-- A point is found under its number, or it is new and gets the next number. -/
theorem addPoint_cases (fine : g.Consistent) (p : Point) :
    (∃ i, g.points[i]? = some p ∧ g.addPoint p = (i, g)) ∨
    (p ∉ g.points ∧ g.addPoint p = (g.points.length,
      { g with points := g.points ++ [p], numbers := g.numbers.set p g.points.length })) := by
  unfold addPoint
  cases found : g.numbers.get? p with
  | some i => exact Or.inl ⟨i, (fine.number_iff p i).mp found, rfl⟩
  | none =>
    refine Or.inr ⟨fun listed => ?_, rfl⟩
    obtain ⟨i, here⟩ := List.mem_iff_getElem?.mp listed
    rw [(fine.number_iff p i).mpr here] at found
    cases found

theorem addPoint (fine : g.Consistent) (p : Point) : (g.addPoint p).2.Consistent := by
  rcases fine.addPoint_cases p with ⟨i, -, same⟩ | ⟨fresh, added⟩
  · rw [same]
    exact fine
  · rw [added]
    constructor
    · intro q i
      rw [Table.get?_set, getElem?_concat_eq_some_iff, ← fine.number_iff]
      by_cases here : q = p
      · -- The new point had no number, so its only place is the last one.
        subst here
        have unnumbered : g.numbers.get? q = none := by
          apply Option.eq_none_iff_forall_ne_some.mpr
          intro j number
          exact fresh (List.mem_of_getElem? ((fine.number_iff q j).mp number))
        simp [unnumbered, eq_comm]
      · simp [here, Ne.symm here]
    · intro link listed
      obtain ⟨source, target⟩ := fine.inside link listed
      simp only [List.length_append, List.length_singleton]
      omega

/-- The number that a point gets is its place. -/
theorem getElem?_addPoint (fine : g.Consistent) (p : Point) :
    (g.addPoint p).2.points[(g.addPoint p).1]? = some p := by
  rcases fine.addPoint_cases p with ⟨i, here, same⟩ | ⟨-, added⟩
  · rw [same]
    exact here
  · rw [added]
    exact List.getElem?_concat_length

/-- Points keep their places when one is added. -/
theorem getElem?_addPoint_of_some (fine : g.Consistent) {q : Point} {i : Nat}
    (here : g.points[i]? = some q) (p : Point) : (g.addPoint p).2.points[i]? = some q := by
  rcases fine.addPoint_cases p with ⟨_, -, same⟩ | ⟨-, added⟩
  · rw [same]
    exact here
  · rw [added]
    have inside : i < g.points.length := (List.getElem?_eq_some_iff.mp here).1
    exact (List.getElem?_append_left inside).trans here

theorem graph_addPoint (fine : g.Consistent) (p : Point) :
    (g.addPoint p).2.graph = g.graph.addPoint p := by
  rcases fine.addPoint_cases p with ⟨i, here, same⟩ | ⟨fresh, added⟩
  · rw [same]
    exact (if_pos (List.mem_of_getElem? here)).symm
  · rw [added]
    refine Eq.trans ?_ (if_neg fresh).symm
    have edges : ∀ link ∈ g.links, _ = g.edge? link := fun link listed =>
      edge?_append (g.numbers.set p g.points.length) [p] (fine.inside link listed).1
        (fine.inside link listed).2
    simp only [graph, IndexedGraph.edges, List.filterMap_congr edges]

/-- An edge is listed between its two points already, or it is new and gets a link between their
numbers. -/
theorem addEdge_cases (fine : g.Consistent) (e : Edge) :
    ∃ (h : IndexedGraph) (i j : Nat), h = ((g.addPoint e.source).2.addPoint e.target).2 ∧ h.Consistent ∧
      h.points[i]? = some e.source ∧ h.points[j]? = some e.target ∧
      ((e ∈ h.edges ∧ g.addEdge e = (false, h)) ∨
        (e ∉ h.edges ∧ g.addEdge e = (true, { h with links := h.links ++ [⟨i, j, e.label⟩] }))) := by
  have fine' := fine.addPoint e.source
  have source := fine'.getElem?_addPoint_of_some (fine.getElem?_addPoint e.source) e.target
  have target := fine'.getElem?_addPoint e.target
  refine ⟨_, (g.addPoint e.source).1, ((g.addPoint e.source).2.addPoint e.target).1, rfl,
    fine'.addPoint e.target, source, target, ?_⟩
  rw [(fine'.addPoint e.target).mem_edges_iff source target]
  unfold addEdge
  dsimp only
  split
  · next known =>
    obtain ⟨link, found, label⟩ := List.any_eq_true.mp known
    obtain ⟨listed, first, second⟩ := mem_connecting.mp found
    refine Or.inl ⟨?_, rfl⟩
    rw [← first, ← second, ← of_decide_eq_true label]
    exact listed
  · next new =>
    refine Or.inr ⟨fun listed => new ?_, rfl⟩
    exact List.any_eq_true.mpr ⟨_, mem_connecting.mpr ⟨listed, rfl, rfl⟩, decide_eq_true rfl⟩

end Consistent

/-! ## Operations as operations on lists -/

/-- The stored graph is consistent, and its lists of points and edges are those of a given graph. -/
structure Represents (g : IndexedGraph) (view : Graph) : Prop where
  consistent : g.Consistent
  graph_eq : g.graph = view

namespace Represents

variable {view other : Graph}

theorem empty : IndexedGraph.empty.Represents Graph.empty := ⟨.empty, rfl⟩

theorem addPoint (same : g.Represents view) (p : Point) : (g.addPoint p).2.Represents (view.addPoint p) :=
  ⟨same.consistent.addPoint p, by rw [same.consistent.graph_addPoint, same.graph_eq]⟩

theorem addEdge (same : g.Represents view) (e : Edge) : (g.addEdge e).2.Represents (view.addEdge e) := by
  obtain ⟨h, i, j, ends, fine, source, target, either⟩ := same.consistent.addEdge_cases e
  have view' : h.graph = (view.addPoint e.source).addPoint e.target :=
    ends ▸ ((same.addPoint e.source).addPoint e.target).graph_eq
  rw [Graph.addEdge, ← view']
  rcases either with ⟨listed, known⟩ | ⟨fresh, new⟩
  · rw [known]
    exact ⟨fine, (if_pos listed).symm⟩
  · rw [new]
    refine ⟨⟨fine.number_iff, ?_⟩, Eq.trans ?_ (if_neg fresh).symm⟩
    · intro link listed
      rcases List.mem_append.mp listed with before | last
      · exact fine.inside link before
      · rw [List.mem_singleton.mp last]
        exact ⟨(List.getElem?_eq_some_iff.mp source).1, (List.getElem?_eq_some_iff.mp target).1⟩
    · have stands : h.edge? ⟨i, j, e.label⟩ = some e := edge?_eq_some_iff.mpr ⟨source, target, rfl⟩
      have edges : (h.links ++ [(⟨i, j, e.label⟩ : Link)]).filterMap h.edge? = h.edges ++ [e] := by
        rw [List.filterMap_append, List.filterMap_cons_some stands, List.filterMap_nil, IndexedGraph.edges]
      exact congrArg (Graph.mk h.points · h.entry) edges

theorem foldl_addPoint (same : g.Represents view) (points : List Point) :
    (points.foldl (fun g p => (g.addPoint p).2) g).Represents (points.foldl Graph.addPoint view) := by
  induction points generalizing g view with
  | nil => exact same
  | cons p rest ih => exact ih (same.addPoint p)

theorem foldl_addEdge (same : g.Represents view) (edges : List Edge) :
    (edges.foldl (fun g e => (g.addEdge e).2) g).Represents (edges.foldl Graph.addEdge view) := by
  induction edges generalizing g view with
  | nil => exact same
  | cons e rest ih => exact ih (same.addEdge e)

/-- Consistency is not about entries. -/
theorem mapEntry (same : g.Represents view) (f : Option Point → Option Point) :
    { g with entry := f g.entry : IndexedGraph }.Represents { view with entry := f view.entry } := by
  obtain ⟨fine, rfl⟩ := same
  exact ⟨⟨fine.number_iff, fine.inside⟩, rfl⟩

theorem merge (same : g.Represents view) (same' : h.Represents other) :
    (g.merge h).Represents (view.merge other) := by
  -- Whatever the second graph numbers its points, it is merged by its lists.
  obtain ⟨-, rfl⟩ := same'
  exact ((same.foldl_addPoint h.points).foldl_addEdge h.edges).mapEntry (·.or h.entry)

theorem setEntry (same : g.Represents view) (p : Point) : (g.setEntry p).Represents (view.setEntry p) :=
  (same.addPoint p).mapEntry fun _ => some p

theorem connect (same : g.Represents view) (exits : List Exit) (target : Point) :
    (g.connect exits target).Represents (view.connect exits target) := by
  induction exits generalizing g view with
  | nil => exact same
  | cons exit rest ih => exact ih (same.addEdge _)

end Represents

mutual

theorem represents_ofStatement : ∀ s : Stmt, (ofStatement s).1 = (Graph.ofStatement s).1 ∧
    (ofStatement s).2.Represents (Graph.ofStatement s).2
  | .assign _ _ _ => ⟨rfl, Represents.empty.addPoint _⟩
  | .ifElse _ _ thenBody elseBody => by
    obtain ⟨exits, yes⟩ := represents_ofSequence thenBody _ Represents.empty
    obtain ⟨exits', no⟩ := represents_ofSequence elseBody _ Represents.empty
    rw [ofStatement, Graph.ofStatement]
    exact ⟨by rw [exits, exits'], ((Represents.empty.addPoint _).merge yes).merge no⟩
  | .loop _ _ body => by
    obtain ⟨exits, inner⟩ := represents_ofSequence body _ Represents.empty
    rw [ofStatement, Graph.ofStatement, exits]
    exact ⟨rfl, ((Represents.empty.addPoint _).merge inner).connect _ _⟩
  | .ret _ _ => ⟨rfl, Represents.empty.addPoint _⟩

theorem represents_ofSequence : ∀ (ss : List Stmt) {g : IndexedGraph} {view : Graph} (exits : List Exit),
    g.Represents view → (ofSequence g exits ss).1 = (Graph.ofSequence view exits ss).1 ∧
      (ofSequence g exits ss).2.Represents (Graph.ofSequence view exits ss).2
  | [], _, _, _, same => ⟨rfl, same⟩
  | s :: rest, g, view, exits, same => by
    obtain ⟨exits', own⟩ := represents_ofStatement s
    rw [ofSequence, Graph.ofSequence, exits']
    exact represents_ofSequence rest _ (((same.addPoint ⟨s⟩).connect exits ⟨s⟩).merge own)

end

theorem represents_build (f : FunctionDef) : (build f).Represents (Graph.build f) :=
  ⟨((represents_ofSequence f.body [] Represents.empty).2.mapEntry fun _ => _).consistent, rfl⟩

end IndexedGraph

/-- **The graph of a function is the one made on lists.** -/
theorem Graph.build_eq (f : FunctionDef) :
    build f = { (ofSequence empty [] f.body).2 with entry := f.body.head?.map Point.mk } :=
  ((IndexedGraph.represents_ofSequence f.body [] .empty).2.mapEntry fun _ => _).graph_eq

/-! ## Queries -/

/-- A list sorted by a key has ascending keys. -/
theorem pairwise_mergeSort_key {β : Type} (key : β → Nat) (entries : List β) :
    (entries.mergeSort fun a b => key a ≤ key b).Pairwise fun a b => key a ≤ key b := by
  have transitive : ∀ a b c : β, decide (key a ≤ key b) = true → decide (key b ≤ key c) = true →
      decide (key a ≤ key c) = true := by
    intro a b c first second
    exact decide_eq_true (Nat.le_trans (of_decide_eq_true first) (of_decide_eq_true second))
  have total : ∀ a b : β, (decide (key a ≤ key b) || decide (key b ≤ key a)) = true := by
    intro a b
    rw [Bool.or_eq_true, decide_eq_true_eq, decide_eq_true_eq]
    exact Nat.le_total _ _
  exact (List.pairwise_mergeSort transitive total entries).imp of_decide_eq_true

/-- Entries with ascending keys that are taken in the opposite order are sorted back. -/
theorem mergeSort_reverse {β : Type} (key : β → Nat) {entries : List β}
    (ascending : entries.Pairwise (key · < key ·)) :
    entries.reverse.mergeSort (fun a b => key a ≤ key b) = entries := by
  have once : (entries.map key).Nodup := List.pairwise_map.mpr (ascending.imp Nat.ne_of_lt)
  have perm := (List.mergeSort_perm entries.reverse fun a b => key a ≤ key b).trans
    (List.reverse_perm entries)
  refine perm.eq_of_pairwise ?_ (pairwise_mergeSort_key key _) (ascending.imp Nat.le_of_lt)
  intro a b found found' below above
  exact List.inj_on_of_nodup_map once (perm.subset found) found' (Nat.le_antisymm below above)

namespace Direction

/-- The end of an edge at the point it is looked at from. -/
def nearEnd : Direction → Edge → Point
  | outgoing, e => e.source
  | incoming, e => e.target

/-- The other end of an edge. -/
def farEnd : Direction → Edge → Point
  | outgoing, e => e.target
  | incoming, e => e.source

end Direction

namespace IndexedGraph

variable {g : IndexedGraph} {p : Point} {e : Edge} {link : Link}

/-- Neighbors that are taken in the order of the links come under ascending places. -/
theorem pairwise_neighbor? (g : IndexedGraph) (direction : Direction) (among : Link × Nat → Bool) :
    ((g.links.zipIdx.filter among).filterMap (g.neighbor? direction)).Pairwise (·.1 < ·.1) := by
  have places : g.links.zipIdx.Pairwise (·.2 < ·.2) := by
    rw [← List.pairwise_map, List.zipIdx_map_snd]
    exact List.pairwise_lt_range'
  rw [List.pairwise_filterMap]
  refine (places.filter _).imp ?_
  rintro ⟨link, place⟩ ⟨link', place'⟩ before found taken found' taken'
  obtain ⟨other, -, rfl⟩ := Option.map_eq_some_iff.mp taken
  obtain ⟨other', -, rfl⟩ := Option.map_eq_some_iff.mp taken'
  exact before

/-- The ends of a link are the numbers of the ends of its edge. -/
theorem ends_of_edge? (found : g.edge? link = some e) (direction : Direction) :
    g.points[direction.near link]? = some (direction.nearEnd e) ∧
      g.points[direction.far link]? = some (direction.farEnd e) := by
  obtain ⟨source, target, -⟩ := edge?_eq_some_iff.mp found
  cases direction with
  | outgoing => exact ⟨source, target⟩
  | incoming => exact ⟨target, source⟩

namespace Consistent

/-- Looked at from a numbered point, a link is at that point exactly when its edge is. -/
theorem near_eq_iff (fine : g.Consistent) (found : g.edge? link = some e) (direction : Direction) {i : Nat}
    (number : g.numbers.get? p = some i) : direction.near link = i ↔ direction.nearEnd e = p := by
  have near := (ends_of_edge? found direction).1
  constructor
  · intro same
    rw [same, (fine.number_iff p i).mp number] at near
    exact (Option.some.inj near).symm
  · intro same
    rw [same, ← fine.number_iff, number] at near
    exact (Option.some.inj near).symm

/-- No edge is at a point without a number. -/
theorem nearEnd_ne_of_unnumbered (fine : g.Consistent) (direction : Direction)
    (unnumbered : g.numbers.get? p = none) (listed : e ∈ g.edges) : direction.nearEnd e ≠ p := by
  rintro rfl
  obtain ⟨link, -, found⟩ := List.mem_filterMap.mp listed
  have number := (fine.number_iff _ _).mpr (ends_of_edge? found direction).1
  rw [unnumbered] at number
  cases number

/-- In the order of the list, the links at a numbered point lead to the far ends of the edges at it. -/
theorem map_neighbor? (fine : g.Consistent) (direction : Direction) {i : Nat}
    (number : g.numbers.get? p = some i) :
    ((g.links.zipIdx.filter fun found => direction.near found.1 = i).filterMap
        (g.neighbor? direction)).map (·.2) =
      (g.edges.filter (direction.nearEnd · = p)).map fun e => (direction.farEnd e, e.label) := by
  rw [edges, List.filter_filterMap, List.map_filterMap, List.map_filterMap, List.filterMap_filter]
  nth_rewrite 2 [← List.zipIdx_map_fst 0 g.links]
  rw [List.filterMap_map]
  refine List.filterMap_congr fun (link, place) listed => ?_
  obtain ⟨e, found⟩ : ∃ e, g.edge? link = some e :=
    fine.exists_edge (List.fst_mem_of_mem_zipIdx listed)
  have label : link.label = e.label := (edge?_eq_some_iff.mp found).2.2
  have near := fine.near_eq_iff found direction number
  have far := (ends_of_edge? found direction).2
  by_cases here : direction.nearEnd e = p
  · simp [neighbor?, found, Option.filter_some, here, near.mpr here, far, label]
  · simp [found, Option.filter_some, here, mt near.mp here]

/-- **The neighbors of a point are the far ends of the edges at it, in the order of the edges.** -/
theorem neighbors_eq (fine : g.Consistent) (direction : Direction) (p : Point) :
    g.neighbors direction p =
      (g.edges.filter (direction.nearEnd · = p)).map fun e => (direction.farEnd e, e.label) := by
  cases number : g.numbers.get? p with
  | none =>
    have nothing : g.edges.filter (direction.nearEnd · = p) = [] := by
      rw [List.filter_eq_nil_iff]
      intro e listed here
      exact fine.nearEnd_ne_of_unnumbered direction number listed (of_decide_eq_true here)
    simp [neighbors, number, nothing]
  | some i =>
    -- The walk is newest first, and sorting by place turns it round again.
    simp only [neighbors, number, linksAt, List.filterMap_reverse]
    rw [mergeSort_reverse Prod.fst (pairwise_neighbor? g direction _)]
    exact fine.map_neighbor? direction number

theorem outgoing_eq (fine : g.Consistent) (p : Point) :
    g.outgoing p = (g.graph.outgoing p).map fun e => (e.target, e.label) :=
  fine.neighbors_eq .outgoing p

theorem incoming_eq (fine : g.Consistent) (p : Point) :
    g.incoming p = (g.graph.incoming p).map fun e => (e.source, e.label) :=
  fine.neighbors_eq .incoming p

theorem successors_eq (fine : g.Consistent) (p : Point) : g.successors p = g.graph.successors p := by
  rw [successors, fine.outgoing_eq, List.map_map]
  rfl

theorem predecessors_eq (fine : g.Consistent) (p : Point) :
    g.predecessors p = g.graph.predecessors p := by
  rw [predecessors, fine.incoming_eq, List.map_map]
  rfl

theorem isLoopHead_eq (fine : g.Consistent) (p : Point) : g.isLoopHead p = g.graph.isLoopHead p := by
  have same : g.contains p = decide (p ∈ g.points) := by
    rw [Bool.eq_iff_iff, fine.contains_iff, decide_eq_true_iff]
  rw [isLoopHead, same, Graph.isLoopHead, graph]

end Consistent

end IndexedGraph

end Dataflow
