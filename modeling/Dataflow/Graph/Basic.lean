import Dataflow.Stmt.Order
import Dataflow.Stmt.Print

/-!
# Control-flow graphs

A graph joins program points by edges that carry the condition under which control takes them. An edge
on the failing side of a branch carries the negated condition, so the condition of every edge holds when
control takes it. The lists are in the order in which points and edges were added; how a graph is stored
while it grows is said by `IndexedGraph`. A printed graph has the entry on its first line, then one edge
to a line by the lines of its ends, with side and condition when it belongs to a branch.
-/

set_option autoImplicit false

namespace Dataflow

/-- A place in a function: the statement that begins there. Its identity is the whole statement,
line included. -/
structure Point where
  statement : Stmt
deriving DecidableEq

namespace Point

/-- The source line. -/
def line (p : Point) : Nat := p.statement.line

/-- The text of a point: its line and the header of its statement. -/
def render (p : Point) : String :=
  toString p.line ++ ": " ++ p.statement.header

/-- The order of points: by line, then by statement. -/
def order (p q : Point) : Ordering :=
  (Ord.compare p.line q.line).then (p.statement.order q.statement)

end Point

/-- The side of a branch an edge belongs to. -/
inductive Branch where
  | whenTrue
  | whenFalse
  | fallthrough
deriving DecidableEq

/-- The name of a side. -/
def Branch.text : Branch → String
  | whenTrue => "true"
  | whenFalse => "false"
  | fallthrough => "fallthrough"

/-- What an edge carries: a condition that holds when it is taken, and its side. -/
structure Label where
  condition : Expr
  branch : Branch
deriving DecidableEq

namespace Label

/-- The label of plain sequencing. -/
def fallthrough : Label := ⟨.bool true, .fallthrough⟩

/-- Labels of the sides of a branch. -/
def isConditional (label : Label) : Bool := decide (label.branch ≠ .fallthrough)

end Label

/-- An edge between points. -/
structure Edge where
  source : Point
  target : Point
  label : Label
deriving DecidableEq

/-- The line of an edge. -/
def Edge.render (e : Edge) : String :=
  let ends := toString e.source.line ++ " -> " ++ toString e.target.line
  if e.label.isConditional then
    ends ++ " [" ++ e.label.branch.text ++ ": " ++ e.label.condition.render ++ "]"
  else ends

/-- A control-flow graph. -/
structure Graph where
  points : List Point
  edges : List Edge
  entry : Option Point
deriving DecidableEq

namespace Graph

/-- The edges into a point. -/
def incoming (g : Graph) (p : Point) : List Edge :=
  g.edges.filter (·.target = p)

/-- The edges out of a point. -/
def outgoing (g : Graph) (p : Point) : List Edge :=
  g.edges.filter (·.source = p)

/-- A list without the later ones of equal points. -/
def distinct : List Point → List Point
  | [] => []
  | p :: rest => p :: (distinct rest).filter (· ≠ p)

/-- The points an edge leads to from a point. -/
def successors (g : Graph) (p : Point) : List Point :=
  distinct ((g.outgoing p).map (·.target))

/-- The points an edge leads to a point from. -/
def predecessors (g : Graph) (p : Point) : List Point :=
  distinct ((g.incoming p).map (·.source))

/-- Loop heads are the points of the graph that are loops. -/
def isLoopHead (g : Graph) (p : Point) : Bool :=
  decide (p ∈ g.points) && p.statement.isLoop

/-- The first point on a line. -/
def pointAtLine? (g : Graph) (line : Nat) : Option Point :=
  g.points.find? (·.line = line)

/-- The search with the points `found` so far, of which those in `pending` are not expanded yet;
`budget` bounds the expansions. -/
def search (g : Graph) : Nat → (found pending : List Point) → List Point
  | 0, found, _ => found
  | _ + 1, found, [] => found
  | budget + 1, found, p :: pending =>
    let fresh := (g.successors p).filter (· ∉ found)
    search g budget (found ++ fresh) (pending ++ fresh)

/-- The points reachable from a point of the graph, itself included, in the order of discovery. A
graph has no more points to expand than it lists. -/
def reachableFrom (g : Graph) (start : Point) : List Point :=
  if start ∈ g.points then g.search g.points.length [start] [start] else []

/-- The lines of a graph. -/
def render (g : Graph) : String :=
  let entry := match g.entry with
    | some p => p.render
    | none => "<none>"
  "entry " ++ entry ++ "\n" ++ String.join (g.edges.map fun e => e.render ++ "\n")

end Graph

end Dataflow
