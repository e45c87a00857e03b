import Dataflow.Graph.Basic
import Dataflow.Table

/-!
# Graphs of numbered points

A graph is stored as the list of its points, a table with the number of each, and links between numbers.
The number of a point is its place in the list. Points are found through the table alone, so that adding
one twice adds it once; equal links are not added twice, while links between the same points under
different labels are kept. `IndexedGraph.graph` reads the stored form as lists of points and edges.
-/

set_option autoImplicit false

namespace Dataflow

/-- An edge between numbered points. -/
structure Link where
  source : Nat
  target : Nat
  label : Label
deriving DecidableEq

/-- The side from which the links at a point are looked at. -/
inductive Direction where
  | outgoing
  | incoming
deriving DecidableEq

namespace Direction

/-- The end of a link at the point it is looked at from. -/
def near : Direction → Link → Nat
  | outgoing, link => link.source
  | incoming, link => link.target

/-- The other end of a link. -/
def far : Direction → Link → Nat
  | outgoing, link => link.target
  | incoming, link => link.source

end Direction

/-- A graph as it is stored. -/
structure IndexedGraph where
  points : List Point
  /-- The number of every point. -/
  numbers : Table Point Nat
  links : List Link
  entry : Option Point

namespace IndexedGraph

/-- The graph without points. -/
def empty : IndexedGraph := ⟨[], .empty, [], none⟩

/-- Whether a point has a number. -/
def contains (g : IndexedGraph) (p : Point) : Bool := g.numbers.contains p

/-- The edge that a link stands for. -/
def edge? (g : IndexedGraph) (link : Link) : Option Edge := do
  let source ← g.points[link.source]?
  let target ← g.points[link.target]?
  return ⟨source, target, link.label⟩

/-- The edges in the order of the links. -/
def edges (g : IndexedGraph) : List Edge := g.links.filterMap g.edge?

/-- The graph with its edges between points. -/
def graph (g : IndexedGraph) : Graph := ⟨g.points, g.edges, g.entry⟩

/-! ## Construction -/

/-- The number of a point and the graph with the point, added at the end when it has no number yet. -/
def addPoint (g : IndexedGraph) (p : Point) : Nat × IndexedGraph :=
  match g.numbers.get? p with
  | some i => (i, g)
  | none =>
    let i := g.points.length
    (i, { g with points := g.points ++ [p], numbers := g.numbers.set p i })

/-- The links at a numbered point with their places in the list, newest first. -/
def linksAt (g : IndexedGraph) (direction : Direction) (i : Nat) : List (Link × Nat) :=
  (g.links.zipIdx.filter fun found => direction.near found.1 = i).reverse

/-- The links from one numbered point to another, newest first. -/
def connecting (g : IndexedGraph) (i j : Nat) : List Link :=
  ((g.linksAt .outgoing i).map (·.1)).filter (·.target = j)

/-- Whether an edge is new, and the graph with the edge and its ends, each added at the end when it is
new. -/
def addEdge (g : IndexedGraph) (e : Edge) : Bool × IndexedGraph :=
  let (i, g) := g.addPoint e.source
  let (j, g) := g.addPoint e.target
  if (g.connecting i j).any (·.label = e.label) then (false, g)
  else (true, { g with links := g.links ++ [⟨i, j, e.label⟩] })

/-- The first graph with the points and edges of the second, which may number them otherwise; the entry
of the first counts when it has one. -/
def merge (g h : IndexedGraph) : IndexedGraph :=
  let g := h.points.foldl (fun g p => (g.addPoint p).2) g
  let g := h.edges.foldl (fun g e => (g.addEdge e).2) g
  { g with entry := g.entry.or h.entry }

/-- The graph with a given entry, which becomes one of its points. -/
def setEntry (g : IndexedGraph) (p : Point) : IndexedGraph :=
  { (g.addPoint p).2 with entry := some p }

/-! ## Queries -/

/-- The point at the other end of a link with a given place, under that place and with the label. -/
def neighbor? (g : IndexedGraph) (direction : Direction) : Link × Nat → Option (Nat × Point × Label)
  | (link, place) => g.points[direction.far link]?.map fun other => (place, other, link.label)

/-- The points next to a point in a direction, with the labels of the links to them. The links are walked
newest first and then put in the order of their places. -/
def neighbors (g : IndexedGraph) (direction : Direction) (p : Point) : List (Point × Label) :=
  match g.numbers.get? p with
  | none => []
  | some i =>
    let found := (g.linksAt direction i).filterMap (g.neighbor? direction)
    (found.mergeSort fun a b => a.1 ≤ b.1).map (·.2)

/-- The targets and labels of the edges out of a point. -/
def outgoing (g : IndexedGraph) (p : Point) : List (Point × Label) := g.neighbors .outgoing p

/-- The sources and labels of the edges into a point. -/
def incoming (g : IndexedGraph) (p : Point) : List (Point × Label) := g.neighbors .incoming p

/-- The points an edge leads to from a point. -/
def successors (g : IndexedGraph) (p : Point) : List Point :=
  Graph.distinct ((g.outgoing p).map (·.1))

/-- The points an edge leads to a point from. -/
def predecessors (g : IndexedGraph) (p : Point) : List Point :=
  Graph.distinct ((g.incoming p).map (·.1))

/-- Loop heads are the points of the graph that are loops. -/
def isLoopHead (g : IndexedGraph) (p : Point) : Bool := g.contains p && p.statement.isLoop

end IndexedGraph

end Dataflow
