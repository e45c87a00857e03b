import Dataflow.Checked
import Dataflow.Text.Identifier
import Dataflow.Text.Position
import Dataflow.Token
import Dataflow.Token.Lexeme
import Dataflow.NameMap
import Dataflow.Table
import Dataflow.Operator
import Dataflow.Expr.Basic
import Dataflow.Expr.Order
import Dataflow.Expr.Print
import Dataflow.Stmt.Basic
import Dataflow.Stmt.Order
import Dataflow.Stmt.Print
import Dataflow.FunctionDef
import Dataflow.Grammar.Frame
import Dataflow.Grammar.Phase
import Dataflow.Grammar.Expected
import Dataflow.Program
import Dataflow.Sample
import Dataflow.Graph.Basic
import Dataflow.Graph.Indexed
import Dataflow.Graph.Build
import Dataflow.ValueLattice.Basic
import Dataflow.ValueLattice.Walk
import Dataflow.ValueLattice.Laws
import Dataflow.Env
import Dataflow.Analysis.Basic
import Dataflow.Analysis.Fixpoint
import Dataflow.Zero.Basic
import Dataflow.Zero.Analysis
import Dataflow.Interval.Bound
import Dataflow.Interval.Basic
import Dataflow.Interval.Lattice
import Dataflow.Interval.Flow
import Dataflow.Interval.Condition
import Dataflow.Interval.Analysis
import Dataflow.Text.Distance
import Dataflow.Text.Document
import Dataflow.Report
import Dataflow.Text.Terminal
import Dataflow.Command.Number
import Dataflow.Command.Parameter
import Dataflow.Command.Help
import Dataflow.Command.Usage
import Dataflow.Command.Value
import Dataflow.Command.File
import Dataflow.Command.Arguments
import Dataflow.Command.Request
import Dataflow.Command.Run
import Dataflow.Main
import Dataflow.Proofs.Concrete.Evaluation
import Dataflow.Proofs.Concrete.Execution
import Dataflow.Proofs.Graph.Construction
import Dataflow.Proofs.Graph.Agenda
import Dataflow.Proofs.Graph.ControlFlow
import Dataflow.Proofs.Env.Lookup
import Dataflow.Proofs.Analysis.Run
import Dataflow.Proofs.Analysis.LocalConsistency
import Dataflow.Proofs.Analysis.Names
import Dataflow.Proofs.Analysis.Soundness
import Dataflow.Proofs.Zero.Soundness
import Dataflow.Proofs.Interval.Bound
import Dataflow.Proofs.Interval.Soundness
import Dataflow.Proofs.Analysis.Values
import Dataflow.Proofs.Interval.InSize
import Dataflow.Proofs.Env.Order
import Dataflow.Proofs.Analysis.LeastSolution
import Dataflow.Proofs.Zero.Order
import Dataflow.Proofs.Zero.LeastSolution
import Dataflow.Proofs.Graph.Descent
import Dataflow.Proofs.Analysis.Budget
import Dataflow.Proofs.Zero.Budget
import Dataflow.Proofs.Interval.Convergence
import Dataflow.Proofs.Grammar.Derivation
import Dataflow.Proofs.Grammar.Completeness
import Dataflow.Proofs.Grammar.Soundness
import Dataflow.Proofs.Grammar.Unambiguity
import Dataflow.Proofs.Text.Position
import Dataflow.Proofs.Token.Scan
import Dataflow.Proofs.Print.Expressions
import Dataflow.Proofs.Print.Statements
import Dataflow.Proofs.Program.Collect
import Dataflow.Proofs.Print.RoundTrip
import Dataflow.Proofs.Graph.Cycles
import Dataflow.Proofs.Analysis.Justified
import Dataflow.Proofs.Interval.Order
import Dataflow.Proofs.Interval.Justified
import Dataflow.Proofs.Analysis.Renumbering
import Dataflow.Proofs.Graph.History
import Dataflow.Proofs.Token.Coverage
import Dataflow.Proofs.Grammar.ViablePrefix
import Dataflow.Proofs.Program.SyntaxError
import Dataflow.Proofs.Graph.Reach
import Dataflow.Proofs.Analysis.Reached
import Dataflow.Proofs.Report.Partition
import Dataflow.Proofs.ValueLattice.Laws
import Dataflow.Proofs.Interval.Laws
import Dataflow.Proofs.Env.Semilattice
import Dataflow.Proofs.Interval.Transfers
import Dataflow.Proofs.Interval.Marks
import Dataflow.Proofs.Interval.BestNarrowing
import Dataflow.Proofs.Interval.Exactness
import Dataflow.Proofs.Interval.Closure
import Dataflow.Proofs.Interval.Covers
import Dataflow.Proofs.ValueLattice.Walk
import Dataflow.Proofs.Interval.Enumeration
import Dataflow.Proofs.Interval.Widening
import Dataflow.Proofs.Concrete.Negation
import Dataflow.Proofs.Analysis.Limit
import Dataflow.Proofs.Graph.SourceOrder
import Dataflow.Proofs.Token.Locality
import Dataflow.Proofs.Grammar.Relocation
import Dataflow.Proofs.Program.Source
import Dataflow.Proofs.Program.Duplicates
import Dataflow.Proofs.Program.Lines
