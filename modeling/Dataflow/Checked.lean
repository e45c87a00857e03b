/-!
# Checked 64-bit arithmetic

Integer constants and finite interval bounds are 64-bit words. An operation has a value only when
the exact integer result is a word again, so overflow is the absence of a value and never a wrong
one. Every operation is the exact one on integers followed by `ofInt?`, whose only law is
`ofInt?_eq_some_iff`.
-/

set_option autoImplicit false

namespace Dataflow.Checked

/-- The least 64-bit integer. -/
def least : Int := -9223372036854775808

/-- The greatest 64-bit integer. -/
def greatest : Int := 9223372036854775807

/-- The value of a word is not below the least. -/
theorem least_le_toInt (w : Int64) : least ≤ w.toInt := by
  have lower := Int64.le_toInt w
  unfold least
  omega

/-- The value of a word is not above the greatest. -/
theorem toInt_le_greatest (w : Int64) : w.toInt ≤ greatest := by
  have upper := Int64.toInt_lt w
  unfold greatest
  omega

/-- The word whose value is `n`, when `n` is in the 64-bit range. -/
def ofInt? (n : Int) : Option Int64 :=
  if least ≤ n ∧ n ≤ greatest then some (Int64.ofInt n) else none

/-- An integer in the 64-bit range is the value of its word. -/
theorem toInt_ofInt {n : Int} (lower : least ≤ n) (upper : n ≤ greatest) :
    (Int64.ofInt n).toInt = n := by
  unfold least at lower
  unfold greatest at upper
  exact Int64.toInt_ofInt_of_le (by omega) (by omega)

/-- `ofInt?` answers exactly the word with the given value. -/
theorem ofInt?_eq_some_iff {n : Int} {w : Int64} : ofInt? n = some w ↔ w.toInt = n := by
  unfold ofInt?
  split
  · next range =>
    constructor
    · intro found
      cases found
      exact toInt_ofInt range.1 range.2
    · intro value
      rw [← value, Int64.ofInt_toInt]
  · next range =>
    constructor
    · intro found
      cases found
    · intro value
      exact absurd ⟨value ▸ least_le_toInt w, value ▸ toInt_le_greatest w⟩ range

/-- `ofInt?` has no answer exactly outside the 64-bit range. -/
theorem ofInt?_eq_none_iff {n : Int} : ofInt? n = none ↔ n < least ∨ greatest < n := by
  unfold ofInt?
  split <;> simp <;> omega

/-- A word is the answer for its own value. -/
theorem ofInt?_toInt (w : Int64) : ofInt? w.toInt = some w :=
  ofInt?_eq_some_iff.mpr rfl

/-- The sum, when it is a word. -/
def add (a b : Int64) : Option Int64 := ofInt? (a.toInt + b.toInt)

/-- The difference, when it is a word. -/
def sub (a b : Int64) : Option Int64 := ofInt? (a.toInt - b.toInt)

/-- The product, when it is a word. -/
def mul (a b : Int64) : Option Int64 := ofInt? (a.toInt * b.toInt)

/-- The quotient rounded toward zero, when the divisor is not zero and the quotient is a word. -/
def div (a b : Int64) : Option Int64 :=
  if b = 0 then none else ofInt? (a.toInt.tdiv b.toInt)

/-- The negation, when it is a word: the least word has none. -/
def neg (a : Int64) : Option Int64 := ofInt? (-a.toInt)

end Dataflow.Checked
