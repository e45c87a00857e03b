import Dataflow.Command.File
import Dataflow.Command.Request
import Dataflow.Interval.Analysis
import Dataflow.Program
import Dataflow.Report
import Dataflow.Text.Distance
import Dataflow.ValueLattice.Walk
import Dataflow.Zero.Analysis

/-!
# Carrying out requests

A request is carried out against the contents of files, given as a function, and ends in a printed
text or a failure. Nothing is printed when any part of a request fails.
-/

set_option autoImplicit false

namespace Dataflow.Command

/-- Why a request was not carried out. -/
inductive Failure where
  | unreadable (path : String) (fault : FileFault)
  | unparsed (path : String) (cause : ParseError)
  /-- There is no such function, but perhaps one with a similar name. -/
  | unknownFunction (name : String) (similar : Option String)
  | unanalysed (domain : Domain) (name : String) (cause : AnalysisError)

/-- A message with its cause. -/
def withCause (context cause : String) : String :=
  "Error: " ++ context ++ "\n\nCaused by:\n    " ++ cause ++ "\n"

/-- The message. -/
def Failure.message : Failure → String
  | unreadable path fault => withCause ("failed to read " ++ path) fault.message
  | unparsed path cause => withCause ("failed to parse " ++ path) cause.message
  | unknownFunction name similar =>
    "Error: no function named `" ++ name ++ "`"
      ++ (match similar with
        | some candidate => "; did you mean `" ++ candidate ++ "`?"
        | none => "")
      ++ "\n"
  | unanalysed domain name cause =>
    withCause (domain.name ++ " analysis of `" ++ name ++ "` failed") cause.message

/-- The functions of a file. -/
def load (files : Files) (path : String) : Except Failure (List FunctionDef) :=
  match files path with
  | .error fault => .error (.unreadable path fault)
  | .ok text =>
    match Program.parse text with
    | .error cause => .error (.unparsed path cause)
    | .ok functions => .ok functions

/-- The nearest name that is at most three edits away. -/
def similarName? (name : String) (functions : List FunctionDef) : Option String :=
  (Text.nearest? name (functions.map (·.name))).filter fun candidate =>
    Text.distance name candidate ≤ 3

/-- The functions a request is about: all of them, or the named one. -/
def select (functions : List FunctionDef) : Option String → Except Failure (List FunctionDef)
  | none => .ok functions
  | some name =>
    match functions.find? (·.name = name) with
    | some f => .ok [f]
    | none => .error (.unknownFunction name (similarName? name functions))

/-- The report of an analysis of a function. -/
def reportOf {α : Type} [DecidableEq α] (A : Analysis α) (text : α → String) (config : Config)
    (domain : Domain) (f : FunctionDef) : Except Failure Report :=
  let g := Graph.build f
  match A.runOn config f g with
  | .ok result => .ok (Report.ofResult domain.name text f g result)
  | .error cause => .error (.unanalysed domain f.name cause)

/-- The settings of the runs of a request: its own, on top of those of the analysis. -/
def AnalyzeRequest.config (request : AnalyzeRequest) (own : Config) : Config where
  maxIterations := request.maxIterations
  strategy := request.strategy.getD own.strategy
  recordSteps := request.explain

/-- The report of one function. -/
def AnalyzeRequest.report (request : AnalyzeRequest) (f : FunctionDef) : Except Failure Report :=
  match request.domain with
  | .zero => reportOf Zero.analysis Zero.render (request.config Zero.config) .zero f
  | .interval =>
    reportOf (Interval.analysis request.size) Interval.render (request.config Interval.config)
      .interval f

/-- The text of reports. -/
def printReports (json : Bool) (reports : List Report) : String :=
  if json then (Text.Document.list (reports.map Report.document)).render ++ "\n"
  else String.join (reports.map Report.render)

/-- The lines of some values. -/
def printValues {α : Type} (text : α → String) (values : List α) : String :=
  String.join (values.map fun value => text value ++ "\n")

/-- The text that a request prints. -/
def perform (files : Files) : Request → Except Failure String
  | .analyze request => do
    let functions ← select (← load files request.path) request.function
    let reports ← functions.mapM request.report
    return printReports request.json reports
  | .graph path function => do
    let functions ← select (← load files path) function
    return String.join (functions.map fun f =>
      "function " ++ f.name ++ "\n" ++ (Graph.build f).render)
  | .lattice .zero _ limit => .ok (printValues Zero.render (Zero.lattice.enumerate limit))
  | .lattice .interval size limit =>
    .ok (printValues Interval.render ((Interval.lattice size).enumerate limit))
  | .help topic => .ok topic.text

/-- How a command line ends. -/
inductive Outcome where
  | printed (text : String)
  | failed (cause : Failure)
  | misused (cause : UsageError)

namespace Outcome

/-- The exit code. -/
def code : Outcome → Nat
  | printed _ => 0
  | failed _ => 1
  | misused _ => 2

/-- The printed text. -/
def output : Outcome → String
  | printed text => text
  | _ => ""

/-- The text of the error. -/
def errors : Outcome → String
  | printed _ => ""
  | failed cause => cause.message
  | misused cause => cause.message

end Outcome

/-- Carries out a command line. -/
def run (files : Files) (words : List String) : Outcome :=
  match Request.ofWords words with
  | .error cause => .misused cause
  | .ok request =>
    match perform files request with
    | .ok text => .printed text
    | .error cause => .failed cause

end Dataflow.Command
