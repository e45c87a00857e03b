import Dataflow.Interval.Condition
import Dataflow.Interval.Flow

/-!
# The interval analysis

Values are brought into the interval size and loop heads widen: a bound that moved outward since the last
visit becomes infinite, and bounds that stayed or moved inward are kept as they were.
-/

set_option autoImplicit false

namespace Dataflow.Interval

/-- The rules for widening. -/
inductive WideningRule where
  | initial
  | snap
  | join
deriving DecidableEq

/-- The name of a rule. -/
def WideningRule.name : WideningRule → String
  | initial => "Initial"
  | snap => "Snap"
  | join => "Join"

/-- The last and the new value combined. -/
def widen : Interval → Interval → Interval × WideningRule
  | bottom, new => (new, .initial)
  | int a b, int c d =>
    (int (if a ≤ c then a else .negInf) (if d ≤ b then b else .posInf), .snap)
  | last, new => (join last new, .join)

/-- The analysis with a given interval size. -/
def analysis (size : IntervalSize) : Analysis Interval where
  lattice := lattice size
  transfer := dispatch (flow size)
  narrow := narrow size
  widen := fun last new => ((widen last new).1, (widen last new).2.name)

/-- Its own settings. -/
def config : Config := Config.standard

end Dataflow.Interval
