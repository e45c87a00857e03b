import Dataflow.Checked

/-!
# Numbers on the command line

Decimal numbers with an optional sign, read from left to right. The first character that is no digit
or that takes the number out of range decides the fault; at one character the digit comes first.
-/

set_option autoImplicit false

namespace Dataflow.Command

/-- Why a text is not a number in range. -/
inductive NumberFault where
  | empty
  | invalidDigit
  | tooLarge
  | tooSmall
deriving DecidableEq

/-- The message of a fault. -/
def NumberFault.message : NumberFault → String
  | empty => "cannot parse integer from empty string"
  | invalidDigit => "invalid digit found in string"
  | tooLarge => "number too large to fit in target type"
  | tooSmall => "number too small to fit in target type"

/-- The number that digits add to a value read so far, up to a largest one. -/
def readDigits (largest : Nat) (beyond : NumberFault) : Nat → List Char → Except NumberFault Nat
  | value, [] => .ok value
  | value, c :: rest =>
    if c.isDigit then
      let next := 10 * value + (c.toNat - '0'.toNat)
      if next ≤ largest then readDigits largest beyond next rest else .error beyond
    else .error .invalidDigit

/-- A number without its sign: at least one digit. -/
def readMagnitude (largest : Nat) (beyond : NumberFault) (digits : List Char) :
    Except NumberFault Nat :=
  if digits.isEmpty then .error .invalidDigit else readDigits largest beyond 0 digits

/-- The largest count. -/
def largestCount : Nat := 18446744073709551615

/-- A count: a number from zero to the largest one, with an optional plus. -/
def readCount (text : String) : Except NumberFault Nat :=
  match text.toList with
  | [] => .error .empty
  | '+' :: digits => readMagnitude largestCount .tooLarge digits
  | digits => readMagnitude largestCount .tooLarge digits

/-- A number in the 64-bit range, with an optional sign. -/
def readSigned (text : String) : Except NumberFault Int :=
  match text.toList with
  | [] => .error .empty
  | '+' :: digits => (readMagnitude Checked.greatest.toNat .tooLarge digits).map Int.ofNat
  | '-' :: digits => (readMagnitude (-Checked.least).toNat .tooSmall digits).map fun n => -Int.ofNat n
  | digits => (readMagnitude Checked.greatest.toNat .tooLarge digits).map Int.ofNat

end Dataflow.Command
