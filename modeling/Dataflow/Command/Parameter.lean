import Dataflow.Analysis.Basic
import Dataflow.Interval.Lattice

/-!
# What a command line can say

Subcommands, the parameters and flags they take, and the settings that come of them.
-/

set_option autoImplicit false

namespace Dataflow.Command

/-- The analyses on offer. -/
inductive Domain where
  | zero
  | interval
deriving DecidableEq

/-- The name of an analysis. -/
def Domain.name : Domain → String
  | zero => "zero"
  | interval => "interval"

/-- Arguments with a value. -/
inductive Parameter where
  | file
  | analysis
  | function
  | maxIterations
  | intervalSize
  | widening
  | limit
deriving DecidableEq

namespace Parameter

/-- The long name. -/
def long : Parameter → String
  | file => "file"
  | analysis => "analysis"
  | function => "function"
  | maxIterations => "max-iterations"
  | intervalSize => "interval-size"
  | widening => "widening"
  | limit => "limit"

/-- The short name. -/
def short? : Parameter → Option Char
  | analysis => some 'a'
  | function => some 'f'
  | _ => none

/-- The name of the value in messages. -/
def placeholder : Parameter → String
  | file => "<FILE>"
  | analysis => "<ANALYSIS>"
  | function => "<FUNCTION>"
  | maxIterations => "<MAX_ITERATIONS>"
  | intervalSize => "<INTERVAL_SIZE>"
  | widening => "<WIDENING>"
  | limit => "<LIMIT>"

end Parameter

/-- Arguments without a value. -/
inductive Flag where
  | explain
  | json
  | verbose
  | help
deriving DecidableEq

namespace Flag

/-- The long name. -/
def long : Flag → String
  | explain => "explain"
  | json => "json"
  | verbose => "verbose"
  | help => "help"

/-- The short name. -/
def short? : Flag → Option Char
  | verbose => some 'v'
  | help => some 'h'
  | _ => none

/-- Flags that may be given any number of times. -/
def isRepeatable : Flag → Bool
  | verbose => true
  | _ => false

end Flag

/-- An argument by its place: the operand, a value behind an option name, or a flag. -/
inductive Argument where
  | operand (parameter : Parameter)
  | option (parameter : Parameter)
  | flag (flag : Flag)
deriving DecidableEq

namespace Argument

/-- The long name; the operand has none. -/
def long? : Argument → Option String
  | operand _ => none
  | option parameter => some parameter.long
  | flag f => some f.long

/-- The short name. -/
def short? : Argument → Option Char
  | operand _ => none
  | option parameter => parameter.short?
  | flag f => f.short?

/-- The argument in messages. -/
def render : Argument → String
  | operand parameter => parameter.placeholder
  | option parameter => "--" ++ parameter.long ++ " " ++ parameter.placeholder
  | flag f => "--" ++ f.long ++ (if f.isRepeatable then "..." else "")

end Argument

/-- The subcommands. -/
inductive Subcommand where
  | analyze
  | graph
  | lattice
deriving DecidableEq

namespace Subcommand

/-- The name. -/
def name : Subcommand → String
  | analyze => "analyze"
  | graph => "cfg"
  | lattice => "lattice"

/-- Every subcommand. -/
def all : List Subcommand := [analyze, graph, lattice]

/-- The subcommand with a given name. -/
def ofName? (name : String) : Option Subcommand := all.find? (·.name = name)

/-- What the operand of a subcommand says. -/
def operand : Subcommand → Parameter
  | analyze => .file
  | graph => .file
  | lattice => .analysis

/-- The parameters that are options of a subcommand. -/
def parameters : Subcommand → List Parameter
  | analyze => [.analysis, .function, .maxIterations, .intervalSize, .widening]
  | graph => [.function]
  | lattice => [.intervalSize, .limit]

/-- The flags of a subcommand. -/
def flags : Subcommand → List Flag
  | analyze => [.explain, .json, .verbose, .help]
  | graph => [.verbose, .help]
  | lattice => [.verbose, .help]

end Subcommand

/-- What options and help can be about. -/
inductive Topic where
  | program
  | subcommand (subcommand : Subcommand)
  /-- The subcommand that prints help. -/
  | help
deriving DecidableEq

/-- The options that are known on a topic. -/
def Topic.options : Topic → List Argument
  | program => [.flag .verbose, .flag .help]
  | subcommand s => s.parameters.map .option ++ s.flags.map .flag
  | help => []

/-- An argument that was read. -/
inductive Setting where
  | file (path : String)
  | analysis (domain : Domain)
  | function (name : String)
  | maxIterations (count : Nat)
  | intervalSize (size : IntervalSize)
  | widening (strategy : Strategy)
  | limit (count : Nat)
  | flag (flag : Flag)
deriving DecidableEq

/-- Whether a setting gives a parameter its value. -/
def Setting.sets (parameter : Parameter) : Setting → Bool
  | file _ => decide (parameter = .file)
  | analysis _ => decide (parameter = .analysis)
  | function _ => decide (parameter = .function)
  | maxIterations _ => decide (parameter = .maxIterations)
  | intervalSize _ => decide (parameter = .intervalSize)
  | widening _ => decide (parameter = .widening)
  | limit _ => decide (parameter = .limit)
  | flag _ => false

end Dataflow.Command
