import Dataflow.ValueLattice.Basic

/-!
# Zero or not

The lattice that tells zero from everything else: `bottom` is below `zero` and `nonzero`, and both
are below `unknown`. Booleans count as not zero.
-/

set_option autoImplicit false

namespace Dataflow

/-- What is known of a value. -/
inductive Zero where
  | bottom
  | zero
  | nonzero
  | unknown
deriving DecidableEq

namespace Zero

/-- The text of a value. -/
def render : Zero → String
  | bottom => "BOTTOM"
  | zero => "Z"
  | nonzero => "NZ"
  | unknown => "U"

/-- The name of a value in law reports. -/
def describe : Zero → String
  | bottom => "Bottom"
  | zero => "Z"
  | nonzero => "NZ"
  | unknown => "U"

/-- The least value above two values. -/
def join : Zero → Zero → Zero
  | bottom, b => b
  | a, bottom => a
  | zero, zero => zero
  | nonzero, nonzero => nonzero
  | _, _ => unknown

/-- The greatest value below two values. -/
def meet : Zero → Zero → Zero
  | unknown, b => b
  | a, unknown => a
  | zero, zero => zero
  | nonzero, nonzero => nonzero
  | _, _ => bottom

/-- The strict order. -/
def below (a b : Zero) : Bool :=
  decide (a ≠ b) && (decide (a = bottom) || decide (b = unknown))

/-- The values directly above a value. -/
def successors : Zero → List Zero
  | bottom => [zero, nonzero]
  | zero => [unknown]
  | nonzero => [unknown]
  | unknown => []

/-- The values directly below a value. -/
def predecessors : Zero → List Zero
  | bottom => []
  | zero => [bottom]
  | nonzero => [bottom]
  | unknown => [zero, nonzero]

/-- The lattice. -/
def lattice : ValueLattice Zero where
  top := unknown
  bottom := bottom
  join := join
  meet := meet
  below := below
  successors := successors
  predecessors := predecessors

end Zero

end Dataflow
