import Dataflow.FunctionDef
import Dataflow.Graph.Indexed

/-!
# Graphs of statements

The graph of a statement has open exits: the edges that lead to whatever comes next. A sequence
joins the exits of each statement to the following one; an empty sequence passes exits through, which
is how an empty branch leads straight to the code after it. A return has no exits.
-/

set_option autoImplicit false

namespace Dataflow

/-- An edge that still lacks its target. -/
structure Exit where
  source : Point
  label : Label
deriving DecidableEq

namespace Exit

/-- The exit of plain sequencing. -/
def fallthrough (p : Point) : Exit := ⟨p, .fallthrough⟩

/-- The edge to a given target. -/
def edgeTo (exit : Exit) (target : Point) : Edge := ⟨exit.source, target, exit.label⟩

end Exit

namespace IndexedGraph

/-- The graph with an edge from every exit to a point. -/
def connect (g : IndexedGraph) (exits : List Exit) (target : Point) : IndexedGraph :=
  exits.foldl (fun h exit => (h.addEdge (exit.edgeTo target)).2) g

mutual

/-- The open exits and the graph of a statement. -/
def ofStatement : Stmt → List Exit × IndexedGraph
  | .assign line target value =>
    let p : Point := ⟨.assign line target value⟩
    ([.fallthrough p], (empty.addPoint p).2)
  | .ifElse line condition thenBody elseBody =>
    let p : Point := ⟨.ifElse line condition thenBody elseBody⟩
    let yes := ofSequence empty [⟨p, condition, .whenTrue⟩] thenBody
    let no := ofSequence empty [⟨p, condition.negate, .whenFalse⟩] elseBody
    (yes.1 ++ no.1, ((empty.addPoint p).2.merge yes.2).merge no.2)
  | .loop line condition body =>
    let p : Point := ⟨.loop line condition body⟩
    let inner := ofSequence empty [⟨p, condition, .whenTrue⟩] body
    ([⟨p, condition.negate, .whenFalse⟩], ((empty.addPoint p).2.merge inner.2).connect inner.1 p)
  | .ret line value => ([], (empty.addPoint ⟨.ret line value⟩).2)

/-- The open exits and the graph of a sequence that continues the graph `g` with the open exits
`exits`. -/
def ofSequence (g : IndexedGraph) (exits : List Exit) : List Stmt → List Exit × IndexedGraph
  | [] => (exits, g)
  | s :: rest =>
    let p : Point := ⟨s⟩
    let own := ofStatement s
    ofSequence (((g.addPoint p).2.connect exits p).merge own.2) own.1 rest

end

/-- The graph of a function: the first statement of its body is the entry. -/
def build (f : FunctionDef) : IndexedGraph :=
  { (ofSequence empty [] f.body).2 with entry := f.body.head?.map Point.mk }

end IndexedGraph

/-- The graph of a function as lists of points and edges. -/
def Graph.build (f : FunctionDef) : Graph := (IndexedGraph.build f).graph

end Dataflow
