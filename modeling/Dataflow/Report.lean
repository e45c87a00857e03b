import Dataflow.Analysis.Fixpoint
import Dataflow.Text.Document

/-!
# Reports

A report lists the reached points of a run by line with their environments, then the lines of the
points that were not reached, then the recorded steps. Every point of the graph is on exactly one of
the two lists. Columns are filled up with blanks to a width counted in characters; a text that is already
as wide is left alone.
-/

set_option autoImplicit false

namespace Dataflow

/-- The blanks that a text lacks to a width. -/
def Text.fill (width : Nat) (text : String) : String :=
  String.ofList (List.replicate (width - text.length) ' ')

/-- A text at the left of its column. -/
def Text.alignLeft (width : Nat) (text : String) : String := text ++ fill width text

/-- A text at the right of its column. -/
def Text.alignRight (width : Nat) (text : String) : String := fill width text ++ text

/-- What a step did, in words. -/
def StepKind.render : StepKind → String
  | transfer => "transfer"
  | condition fromLine branch feasible =>
    branch.text ++ " edge from " ++ toString fromLine ++ (if feasible then "" else " (infeasible)")
  | widening name => "widen " ++ name

/-- A reached point in a report. -/
structure ReportedPoint where
  line : Nat
  statement : String
  /-- The names and the texts of their values, in order. -/
  environment : List (String × String)
deriving DecidableEq

/-- Everything that is printed for one analysed function. -/
structure Report where
  function : String
  analysis : String
  iterations : Nat
  points : List ReportedPoint
  /-- The lines that no feasible path reaches. -/
  unreached : List Nat
  steps : List Step
deriving DecidableEq

namespace Report

/-- The lines of the points of a graph that a run did not reach, in order. -/
def unreachedLines {α : Type} (g : Graph) (result : Result α) : List Nat :=
  ((g.points.filter fun p => !result.isReached p).map (·.line)).mergeSort

/-- The report of a run over a graph, given the text of the values. -/
def ofResult {α : Type} (analysis : String) (text : α → String) (f : FunctionDef) (g : Graph)
    (result : Result α) : Report where
  function := f.name
  analysis := analysis
  iterations := result.iterations
  points := result.environments.map fun reached =>
    ⟨reached.1.line, reached.1.statement.header,
      reached.2.entries.map fun binding => (binding.1, text binding.2)⟩
  unreached := unreachedLines g result
  steps := result.steps

/-- The line of a reached point. -/
def pointLine (p : ReportedPoint) : String :=
  "  " ++ Text.alignRight 3 (toString p.line) ++ "  " ++ Text.alignLeft 24 p.statement ++ " \x7b"
    ++ ", ".intercalate (p.environment.map fun binding => binding.1 ++ ": " ++ binding.2)
    ++ "\x7d\n"

/-- The line of a point that was not reached. -/
def unreachedLine (line : Nat) : String :=
  "  " ++ Text.alignRight 3 (toString line) ++ "  unreachable\n"

/-- The line of a step. -/
def stepLine (step : Step) : String :=
  "  #" ++ Text.alignLeft 4 (toString step.iteration) ++ " line "
    ++ Text.alignLeft 3 (toString step.line) ++ " " ++ Text.alignLeft 24 step.kind.render ++ " "
    ++ step.rule ++ "\n"

/-- The report as lines of text. -/
def render (r : Report) : String :=
  "function " ++ r.function ++ " (" ++ r.analysis ++ " analysis, " ++ toString r.iterations
    ++ " iterations)\n"
    ++ String.join (r.points.map pointLine)
    ++ String.join (r.unreached.map unreachedLine)
    ++ (if r.steps.isEmpty then "" else "steps:\n" ++ String.join (r.steps.map stepLine))

/-- A reached point as a document. -/
def pointDocument (p : ReportedPoint) : Text.Document :=
  .record [("line", .number p.line), ("statement", .text p.statement),
    ("environment", .record (p.environment.map fun binding => (binding.1, .text binding.2)))]

/-- A step as a document. -/
def stepDocument (step : Step) : Text.Document :=
  .record [("iteration", .number step.iteration), ("line", .number step.line),
    ("kind", .text step.kind.render), ("rule", .text step.rule)]

/-- The report as a document; steps are left out when there are none. -/
def document (r : Report) : Text.Document :=
  .record ([("function", .text r.function), ("analysis", .text r.analysis),
    ("iterations", .number r.iterations), ("points", .list (r.points.map pointDocument)),
    ("unreached", .list (r.unreached.map .number))]
    ++ (if r.steps.isEmpty then [] else [("steps", .list (r.steps.map stepDocument))]))

end Report

end Dataflow
