import Dataflow.Interval.Basic
import Dataflow.ValueLattice.Basic

/-!
# The lattice of intervals

Intervals ordered by containment. An interval size bounds the finite part of the lattice: bounds
beyond it count as infinite, and the covers step from the size straight to infinity. Join, meet and
order are the same for every size.
-/

set_option autoImplicit false

namespace Dataflow

/-- The interval size: the largest finite bound. -/
abbrev IntervalSize := UInt32

namespace IntervalSize

/-- The size as a word. -/
def word (size : IntervalSize) : Int64 := Int64.ofNat size.toNat

/-- The standard size. -/
def standard : IntervalSize := 500

end IntervalSize

namespace Interval

/-- A low bound brought into the size. -/
def normalizeLow (n : Int64) (low : Bound) : Bound :=
  if low < .finite (-n) then .negInf
  else if .finite n < low then .finite n
  else low

/-- A high bound brought into the size. -/
def normalizeHigh (n : Int64) (high : Bound) : Bound :=
  if .finite n < high then .posInf
  else if high < .finite (-n) then .finite (-n)
  else high

/-- The least interval within the size that contains an interval. -/
def normalize (size : IntervalSize) : Interval → Interval
  | int low high => range (normalizeLow size.word low) (normalizeHigh size.word high)
  | other => other

/-- The lesser of two booleans. -/
def boolMin (a b : Bool) : Bool := a && b

/-- The greater of two booleans. -/
def boolMax (a b : Bool) : Bool := a || b

/-- The least interval above two intervals. -/
def join : Interval → Interval → Interval
  | bottom, b => b
  | a, bottom => a
  | int l h, int l' h' => int (l.min l') (h.max h')
  | bool l h, bool l' h' => bool (boolMin l l') (boolMax h h')
  | _, _ => top

/-- The booleans between two bounds. -/
def boolRange (low high : Bool) : Interval := if low && !high then bottom else bool low high

/-- The greatest interval below two intervals. -/
def meet : Interval → Interval → Interval
  | top, b => b
  | a, top => a
  | int l h, int l' h' => range (l.max l') (h.min h')
  | bool l h, bool l' h' => boolRange (boolMax l l') (boolMin h h')
  | _, _ => bottom

/-- The order of booleans. -/
def boolLe (a b : Bool) : Bool := !a || b

/-- Containment of different intervals. -/
def contained : Interval → Interval → Bool
  | bottom, _ => true
  | _, top => true
  | int l h, int l' h' => decide (l' ≤ l) && decide (h ≤ h')
  | bool l h, bool l' h' => boolLe l' l && boolLe h h'
  | _, _ => false

/-- The strict order. -/
def below (a b : Interval) : Bool := decide (a ≠ b) && contained a b

/-- The single integers from one to a size with their negations, nearest to zero first. -/
def constantsUpTo (size : IntervalSize) : List Interval :=
  (List.range size.toNat).flatMap fun i =>
    [constant (Int64.ofNat (i + 1)), constant (-Int64.ofNat (i + 1))]

/-- The intervals directly above one by a lower low bound. -/
def widerLow (n : Int64) (low high : Bound) : List Interval :=
  match low with
  | .finite l =>
    if l = -n then [range .negInf high]
    else if -n < l then [range (.finite (l - 1)) high]
    else []
  | _ => []

/-- The intervals directly above one by a higher high bound. -/
def widerHigh (n : Int64) (low high : Bound) : List Interval :=
  match high with
  | .finite h =>
    if h = n then [range low .posInf]
    else if h < n then [range low (.finite (h + 1))]
    else []
  | _ => []

/-- The intervals directly below one by a higher low bound. -/
def narrowerLow (n : Int64) (low high : Bound) : List Interval :=
  match low with
  | .negInf => [range (.finite (-n)) high]
  | .finite l => if l < n then [range (.finite (l + 1)) high] else []
  | .posInf => []

/-- The intervals directly below one by a lower high bound. -/
def narrowerHigh (n : Int64) (low high : Bound) : List Interval :=
  match high with
  | .posInf => [range low (.finite n)]
  | .finite h => if -n < h then [range low (.finite (h - 1))] else []
  | .negInf => []

/-- The intervals directly above an interval. -/
def successors (size : IntervalSize) : Interval → List Interval
  | top => []
  | bottom => boolean true :: boolean false :: constant 0 :: constantsUpTo size
  | bool false true => [top]
  | bool _ _ => [anyBool]
  | int .negInf .posInf => [top]
  | int low high => widerLow size.word low high ++ widerHigh size.word low high

/-- The intervals directly below an interval. -/
def predecessors (size : IntervalSize) : Interval → List Interval
  | bottom => []
  | top => [anyBool, anyInt]
  | bool false true => [boolean false, boolean true]
  | bool _ _ => [bottom]
  | int low high =>
    if low = high then [bottom]
    else narrowerLow size.word low high ++ narrowerHigh size.word low high

/-- The lattice of a given size. -/
def lattice (size : IntervalSize) : ValueLattice Interval where
  top := top
  bottom := bottom
  join := join
  meet := meet
  below := below
  successors := successors size
  predecessors := predecessors size

end Interval

end Dataflow
