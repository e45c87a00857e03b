import Dataflow.Interval.Bound
import Dataflow.Operator

/-!
# Intervals

Intervals of integers, intervals of booleans, nothing and everything. The two kinds of intervals have
no value in common. `Interval.range` never makes an empty interval: it answers `bottom` instead.
-/

set_option autoImplicit false

namespace Dataflow

/-- What is known of a value. -/
inductive Interval where
  | bottom
  | int (low high : Bound)
  | bool (low high : Bool)
  | top
deriving DecidableEq

namespace Interval

/-- The integers between two bounds. -/
def range (low high : Bound) : Interval := if high < low then bottom else int low high

/-- A single integer. -/
def constant (value : Int64) : Interval := range (.finite value) (.finite value)

/-- Every integer. -/
def anyInt : Interval := int .negInf .posInf

/-- A single boolean. -/
def boolean (value : Bool) : Interval := bool value value

/-- Both booleans. -/
def anyBool : Interval := bool false true

/-- The bounds of an interval of integers. -/
def bounds? : Interval → Option (Bound × Bound)
  | int low high => some (low, high)
  | _ => none

/-- The text of an interval. -/
def render : Interval → String
  | bottom => "⊥"
  | int low high => "[" ++ low.render ++ ", " ++ high.render ++ "]"
  | bool low high => "[" ++ Text.truth low ++ ", " ++ Text.truth high ++ "]"
  | top => "⊤"

/-- The name of an interval in law reports. -/
def describe : Interval → String
  | bottom => "Bottom"
  | int low high => "Int \x7b low: " ++ low.describe ++ ", high: " ++ high.describe ++ " \x7d"
  | bool low high => "Bool \x7b low: " ++ Text.truth low ++ ", high: " ++ Text.truth high ++ " \x7d"
  | top => "Top"

end Interval

end Dataflow
