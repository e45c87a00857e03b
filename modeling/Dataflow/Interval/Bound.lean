import Dataflow.Checked

/-!
# Interval bounds

A bound is a 64-bit word or one of two infinities below and above all words. Sums and products are
exact in the extended integers; a finite result outside the 64-bit range becomes the infinity of its
sign. The overflowed result is not at hand to ask for its sign: the signs of the operands tell it. The
sum of opposite infinities and the product of zero and an infinity have no value.
-/

set_option autoImplicit false

namespace Dataflow

/-- An end of an interval. -/
inductive Bound where
  | negInf
  | finite (value : Int64)
  | posInf
deriving DecidableEq

namespace Bound

/-- The order of bounds. -/
def le : Bound → Bound → Bool
  | negInf, _ => true
  | finite a, finite b => decide (a ≤ b)
  | finite _, posInf => true
  | posInf, posInf => true
  | _, _ => false

instance : LE Bound := ⟨fun a b => le a b = true⟩

instance : LT Bound := ⟨fun a b => ¬ b ≤ a⟩

instance (a b : Bound) : Decidable (a ≤ b) := inferInstanceAs (Decidable (le a b = true))

instance (a b : Bound) : Decidable (a < b) := inferInstanceAs (Decidable (¬ b ≤ a))

/-- The lesser of two bounds. -/
def min (a b : Bound) : Bound := if a ≤ b then a else b

/-- The greater of two bounds. -/
def max (a b : Bound) : Bound := if a ≤ b then b else a

/-- The infinity of a sign. -/
def infinity (positive : Bool) : Bound := if positive then posInf else negInf

/-- The bound for a checked result: an infinity when the result is no word. -/
def ofChecked (result : Option Int64) (positive : Bool) : Bound :=
  match result with
  | some value => finite value
  | none => infinity positive

/-- The sum. -/
def add? : Bound → Bound → Option Bound
  | negInf, posInf => none
  | posInf, negInf => none
  | negInf, _ => some negInf
  | _, negInf => some negInf
  | posInf, _ => some posInf
  | _, posInf => some posInf
  -- Words have the same sign when their sum overflows, so the first one tells.
  | finite a, finite b => some (ofChecked (Checked.add a b) (decide (0 < a)))

/-- Bounds above zero. -/
def isPositive (a : Bound) : Bool := decide (finite 0 < a)

/-- The product. -/
def mul? : Bound → Bound → Option Bound
  | finite a, finite b => some (ofChecked (Checked.mul a b) (decide (a < 0) == decide (b < 0)))
  | a, b =>
    if a = finite 0 ∨ b = finite 0 then none
    else some (infinity (a.isPositive == b.isPositive))

/-- The sum with a word. -/
def shift (a : Bound) (by_ : Int64) : Bound :=
  match a with
  | finite value => ofChecked (Checked.add value by_) (decide (0 < by_))
  | infinite => infinite

/-- Bounds that are words. -/
def isFinite : Bound → Bool
  | finite _ => true
  | _ => false

/-- Bounds from zero up. -/
def isNonNegative (a : Bound) : Bool := decide (finite 0 ≤ a)

/-- The order of two bounds. -/
def order (a b : Bound) : Ordering :=
  if a < b then .lt else if a = b then .eq else .gt

/-- The text of a bound. -/
def render : Bound → String
  | negInf => "-∞"
  | finite value => toString value.toInt
  | posInf => "+∞"

/-- The name of a bound in law reports. -/
def describe : Bound → String
  | negInf => "NegInf"
  | finite value => "Finite(" ++ toString value.toInt ++ ")"
  | posInf => "PosInf"

end Bound

end Dataflow
