import Dataflow.Command.Arguments

/-!
# Requests

What a command line asks for, with the standard value for everything it leaves open.
-/

set_option autoImplicit false

namespace Dataflow.Command

/-- A request to analyse the functions of a file. -/
structure AnalyzeRequest where
  path : String
  domain : Domain
  /-- Only the function with this name. -/
  function : Option String
  maxIterations : Nat
  size : IntervalSize
  /-- The strategy, when it is not the analysis' own. -/
  strategy : Option Strategy
  /-- Whether to show the applied rules. -/
  explain : Bool
  /-- Whether to write a document instead of lines of text. -/
  json : Bool
deriving DecidableEq

/-- What can be asked for. -/
inductive Request where
  | analyze (request : AnalyzeRequest)
  /-- The graphs of the functions of a file. -/
  | graph (path : String) (function : Option String)
  /-- The first values of a lattice. -/
  | lattice (domain : Domain) (size : IntervalSize) (limit : Nat)
  | help (topic : Topic)
deriving DecidableEq

namespace Settings

/-- The path. -/
def path? (settings : List Setting) : Option String :=
  settings.findSome? fun
    | .file path => some path
    | _ => none

/-- The analysis. -/
def domain? (settings : List Setting) : Option Domain :=
  settings.findSome? fun
    | .analysis domain => some domain
    | _ => none

/-- The name of a function. -/
def function? (settings : List Setting) : Option String :=
  settings.findSome? fun
    | .function name => some name
    | _ => none

/-- The number of visits. -/
def maxIterations? (settings : List Setting) : Option Nat :=
  settings.findSome? fun
    | .maxIterations count => some count
    | _ => none

/-- The interval size, the standard one when none is given. -/
def size (settings : List Setting) : IntervalSize :=
  (settings.findSome? fun
    | .intervalSize size => some size
    | _ => none).getD IntervalSize.standard

/-- The widening strategy. -/
def strategy? (settings : List Setting) : Option Strategy :=
  settings.findSome? fun
    | .widening strategy => some strategy
    | _ => none

/-- The number of values, 64 when none is given. -/
def limit (settings : List Setting) : Nat :=
  (settings.findSome? fun
    | .limit count => some count
    | _ => none).getD 64

end Settings

/-- The request of a subcommand with its settings; there is none without the operand. -/
def Request.ofSettings? (settings : List Setting) : Subcommand → Option Request
  | .analyze => (Settings.path? settings).map fun path =>
    .analyze
      { path := path
        domain := (Settings.domain? settings).getD .zero
        function := Settings.function? settings
        maxIterations := (Settings.maxIterations? settings).getD Config.standard.maxIterations
        size := Settings.size settings
        strategy := Settings.strategy? settings
        explain := decide (Setting.flag .explain ∈ settings)
        json := decide (Setting.flag .json ∈ settings) }
  | .graph => (Settings.path? settings).map fun path =>
    .graph path (Settings.function? settings)
  | .lattice => (Settings.domain? settings).map fun domain =>
    .lattice domain (Settings.size settings) (Settings.limit settings)

/-- The request of a command line. -/
def Request.ofWords (words : List String) : Except UsageError Request :=
  match readCommand false .empty words with
  | .error (.help topic) => .ok (.help topic)
  | .error (.misuse cause) => .error cause
  | .ok (subcommand, settings) =>
    match Request.ofSettings? settings subcommand with
    | some request => .ok request
    | none => .error (.missingOperand subcommand.operand)

end Dataflow.Command
