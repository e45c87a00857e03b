import Dataflow.Proofs.Interval.Bound
import Mathlib.Data.EReal.Operations

/-!
# Exact arithmetic of bounds

A bound stands for an extended integer, and its order is that of the extended integers
(`le_iff_value_le_value`). Conversely an extended integer is stored as one bound: a word as itself, and
anything beyond the words as the infinity on its side (`Stores`, `Stores.unique`).

The sum and the product of two bounds are the bounds that store the exact sum and product (`stores_add?`,
`stores_mul?`). They are missing only where the extended integers have none: for opposite infinities, and
for zero and an infinity. On words this rests on the signs of overflow, and with an infinity on the sign of
the other factor (`infinity_value_mul`).
-/

set_option autoImplicit false

namespace Dataflow.Bound

variable {a b r s : Bound} {x : EReal}

/-! ## Extended integers -/

/-- The extended integer that a bound stands for. -/
noncomputable def value : Bound → EReal
  | negInf => ⊥
  | finite w => ((w.toInt : ℝ) : EReal)
  | posInf => ⊤

/-- A bound stores an extended integer. Words store their own value, and an infinity stores everything
beyond the words on its side. -/
def Stores : Bound → EReal → Prop
  | negInf, x => x < ((Checked.least : ℝ) : EReal)
  | finite w, x => x = ((w.toInt : ℝ) : EReal)
  | posInf, x => ((Checked.greatest : ℝ) : EReal) < x

theorem coe_int_le_coe_int {j k : ℤ} : ((j : ℝ) : EReal) ≤ ((k : ℝ) : EReal) ↔ j ≤ k :=
  EReal.coe_le_coe_iff.trans Int.cast_le

theorem coe_int_lt_coe_int {j k : ℤ} : ((j : ℝ) : EReal) < ((k : ℝ) : EReal) ↔ j < k :=
  EReal.coe_lt_coe_iff.trans Int.cast_lt

/-- The order of bounds is the order of what they stand for. -/
theorem le_iff_value_le_value : a ≤ b ↔ a.value ≤ b.value := by
  cases a with
  | negInf => exact iff_of_true (negInf_le b) bot_le
  | posInf =>
    cases b with
    | posInf => exact iff_of_true (le_posInf _) le_rfl
    | negInf => exact iff_of_false Bool.false_ne_true (not_le.mpr bot_lt_top)
    | finite w => exact iff_of_false (not_posInf_le_finite w) (not_le.mpr (EReal.coe_lt_top _))
  | finite v =>
    cases b with
    | posInf => exact iff_of_true (le_posInf _) le_top
    | negInf => exact iff_of_false (not_finite_le_negInf v) (not_le.mpr (EReal.bot_lt_coe _))
    | finite w => exact finite_le_finite.trans coe_int_le_coe_int.symm

theorem value_injective : Function.Injective value := by
  intro a b same
  exact le_antisymm (le_iff_value_le_value.mpr same.le) (le_iff_value_le_value.mpr same.ge)

@[simp] theorem value_zero : (finite 0).value = 0 := by
  simp [value]

/-- Every bound stores what it stands for. -/
theorem stores_value (a : Bound) : a.Stores a.value := by
  cases a with
  | negInf => exact EReal.bot_lt_coe _
  | finite w => exact rfl
  | posInf => exact EReal.coe_lt_top _

/-- A saturated integer stores the integer. -/
theorem stores_saturate (k : ℤ) : (saturate k).Stores ((k : ℝ) : EReal) := by
  rcases word_cases k with low | ⟨w, same⟩ | high
  · rw [saturate_eq_negInf low]
    exact coe_int_lt_coe_int.mpr low
  · rw [saturate_eq_finite same, ← same]
    exact rfl
  · rw [saturate_eq_posInf high]
    exact coe_int_lt_coe_int.mpr high

/-- No bound that stores an extended integer is above another one. -/
theorem Stores.le (first : r.Stores x) (second : s.Stores x) : r ≤ s := by
  cases r with
  | negInf => exact negInf_le s
  | finite v =>
    cases first
    cases s with
    | posInf => exact le_posInf _
    | negInf => exact absurd (Checked.least_le_toInt v) (not_le.mpr (coe_int_lt_coe_int.mp second))
    | finite w => exact finite_le_finite.mpr (coe_int_le_coe_int.mp (Eq.le second))
  | posInf =>
    cases s with
    | posInf => exact le_posInf _
    | negInf =>
      -- Nothing is above all words and below all words.
      have crossed := coe_int_lt_coe_int.mp (lt_trans first second)
      exact absurd crossed (by decide)
    | finite w =>
      cases second
      exact absurd (Checked.toInt_le_greatest w) (not_le.mpr (coe_int_lt_coe_int.mp first))

/-- Only one bound stores an extended integer. -/
theorem Stores.unique (first : r.Stores x) (second : s.Stores x) : r = s :=
  le_antisymm (first.le second) (second.le first)

/-- An answer that stores an extended integer, and is missing only where that is undefined, is the bound
that stores it. -/
theorem eq_some_iff_stores {answer : Option Bound} {undefined : Prop}
    (missing : answer = none ↔ undefined) (stored : ∀ r, answer = some r → r.Stores x) :
    answer = some s ↔ ¬ undefined ∧ s.Stores x := by
  constructor
  · intro found
    have present : answer ≠ none := found ▸ Option.some_ne_none s
    exact ⟨mt missing.mpr present, stored s found⟩
  · rintro ⟨defined, stores⟩
    obtain ⟨r, found⟩ := Option.ne_none_iff_exists'.mp (mt missing.mp defined)
    rw [found, (stored r found).unique stores]

/-! ## Sums -/

/-- Infinities of opposite signs. -/
def Opposite (a b : Bound) : Prop := a = negInf ∧ b = posInf ∨ a = posInf ∧ b = negInf

theorem add?_eq_none_iff : a.add? b = none ↔ a.Opposite b := by
  cases a <;> cases b <;> simp [add?, Opposite]

theorem add?_comm (a b : Bound) : a.add? b = b.add? a := by
  cases a with
  | negInf | posInf => cases b <;> rfl
  | finite v =>
    cases b with
    | negInf | posInf => rfl
    | finite w => rw [finite_add?_finite, finite_add?_finite, Int.add_comm]

/-- The sum of two bounds stores the exact sum. -/
theorem stores_add? (sum : a.add? b = some s) : s.Stores (a.value + b.value) := by
  cases a with
  | negInf =>
    -- The lower infinity takes up every summand, in the extended reals even the upper infinity.
    rw [value, EReal.bot_add]
    cases b <;> cases sum <;> exact stores_value negInf
  | posInf =>
    cases b with
    | negInf => cases sum
    | finite _ | posInf =>
      cases sum
      exact stores_value posInf
  | finite v =>
    cases b with
    | negInf | posInf =>
      cases sum
      exact stores_value _
    | finite w =>
      rw [finite_add?_finite] at sum
      cases sum
      rw [value, value, ← EReal.coe_add, ← Int.cast_add]
      exact stores_saturate _

/-! ## Products -/

/-- Zero and an infinity. -/
def ZeroAndInfinity (a b : Bound) : Prop :=
  a = finite 0 ∧ (b = negInf ∨ b = posInf) ∨ (a = negInf ∨ a = posInf) ∧ b = finite 0

theorem mul?_eq_none_iff : a.mul? b = none ↔ a.ZeroAndInfinity b := by
  cases a <;> cases b <;> simp [mul?, ZeroAndInfinity]

theorem mul?_comm (a b : Bound) : a.mul? b = b.mul? a := by
  cases a with
  | negInf | posInf => cases b <;> simp only [mul?, or_comm, BEq.comm]
  | finite v =>
    cases b with
    | negInf | posInf => simp only [mul?, or_comm, BEq.comm]
    | finite w => rw [finite_mul?_finite, finite_mul?_finite, Int.mul_comm]

/-- Positive bounds are those that stand for something above zero. -/
theorem isPositive_eq_true_iff : a.isPositive = true ↔ 0 < a.value := by
  rw [isPositive, decide_eq_true_iff, ← value_zero]
  exact (not_congr le_iff_value_le_value).trans not_le

/-- Other bounds than zero are positive or stand for something below zero. -/
theorem value_neg_of_isPositive_eq_false (nonzero : a ≠ finite 0) (sign : a.isPositive = false) :
    a.value < 0 := by
  have notAbove : ¬ 0 < a.value := fun above =>
    Bool.false_ne_true (sign.symm.trans (isPositive_eq_true_iff.mpr above))
  refine lt_of_le_of_ne (le_of_not_gt notAbove) fun zero => nonzero ?_
  exact value_injective (zero.trans value_zero.symm)

@[simp] theorem isPositive_infinity (positive : Bool) :
    (infinity positive).isPositive = positive := by
  cases positive <;> rfl

/-- An infinity times anything but zero is the infinity of the product's sign. -/
theorem infinity_value_mul (positive : Bool) (nonzero : b ≠ finite 0) :
    (infinity positive).value * b.value = (infinity (positive == b.isPositive)).value := by
  cases sign : b.isPositive with
  | true =>
    have above := isPositive_eq_true_iff.mp sign
    cases positive with
    | true => exact EReal.top_mul_of_pos above
    | false => exact EReal.bot_mul_of_pos above
  | false =>
    have below := value_neg_of_isPositive_eq_false nonzero sign
    cases positive with
    | true => exact EReal.top_mul_of_neg below
    | false => exact EReal.bot_mul_of_neg below

theorem exists_eq_infinity (infinite : a.isFinite = false) : ∃ positive, a = infinity positive := by
  cases a with
  | negInf => exact ⟨false, rfl⟩
  | posInf => exact ⟨true, rfl⟩
  | finite w => cases infinite

/-- The product of an infinity and a bound stores the exact product. -/
theorem stores_mul?_of_infinite (infinite : a.isFinite = false) (product : a.mul? b = some s) :
    s.Stores (a.value * b.value) := by
  obtain ⟨positive, rfl⟩ := exists_eq_infinity infinite
  -- An infinity is no word, so the rule for two words is out.
  have opened : (infinity positive).mul? b =
      if infinity positive = finite 0 ∨ b = finite 0 then none
      else some (infinity ((infinity positive).isPositive == b.isPositive)) := by
    cases positive <;> rfl
  rw [opened, isPositive_infinity] at product
  split at product
  · cases product
  · next nonzero =>
    cases product
    rw [infinity_value_mul positive fun zero => nonzero (Or.inr zero)]
    exact stores_value _

/-- The product of two bounds stores the exact product. -/
theorem stores_mul? (product : a.mul? b = some s) : s.Stores (a.value * b.value) := by
  cases a with
  | negInf | posInf => exact stores_mul?_of_infinite rfl product
  | finite v =>
    cases b with
    | negInf | posInf =>
      -- The infinity comes second: both products are read with the factors exchanged.
      rw [mul?_comm] at product
      rw [EReal.mul_comm]
      exact stores_mul?_of_infinite rfl product
    | finite w =>
      rw [finite_mul?_finite] at product
      cases product
      rw [value, value, ← EReal.coe_mul, ← Int.cast_mul]
      exact stores_saturate _

/-! ## Exactness -/

/-- **The arithmetic of bounds is exact, and saturates outward.** The order of bounds is the order of what
they stand for. A sum is missing exactly for opposite infinities and a product exactly for zero and an
infinity; otherwise they are the bounds that store the exact sum and product, an integer beyond the words
being stored as the infinity of its sign. Shifting by a word is adding it. Both operations are commutative,
and sums and shifts keep the order in both arguments. -/
theorem arithmetic_is_exact (a b : Bound) :
    (a ≤ b ↔ a.value ≤ b.value) ∧
    (a.add? b = none ↔ a.Opposite b) ∧
    (∀ sum, a.add? b = some sum ↔ ¬ a.Opposite b ∧ sum.Stores (a.value + b.value)) ∧
    (a.mul? b = none ↔ a.ZeroAndInfinity b) ∧
    (∀ product, a.mul? b = some product ↔
      ¬ a.ZeroAndInfinity b ∧ product.Stores (a.value * b.value)) ∧
    (∀ c : Int64, a.add? (finite c) = some (a.shift c)) ∧
    a.add? b = b.add? a ∧
    a.mul? b = b.mul? a ∧
    (∀ a' b' sum sum', a ≤ a' → b ≤ b' → a.add? b = some sum → a'.add? b' = some sum' →
      sum ≤ sum') ∧
    (∀ (a' : Bound) (c c' : Int64), a ≤ a' → c ≤ c' → a.shift c ≤ a'.shift c') := by
  refine ⟨le_iff_value_le_value, add?_eq_none_iff, ?_, mul?_eq_none_iff, ?_, add?_finite a, add?_comm a b,
    mul?_comm a b, ?_, ?_⟩
  · intro sum
    exact eq_some_iff_stores add?_eq_none_iff fun r => stores_add?
  · intro product
    exact eq_some_iff_stores mul?_eq_none_iff fun r => stores_mul?
  · intro a' b' sum sum' left right added added'
    exact add?_le_add? left right added added'
  · intro a' c c' below less
    exact shift_le_shift_of_le below less

/-- At the least word: the sum with `-1` and the product with `-1` leave the words on opposite sides. One
above it, the sum is a word again. -/
theorem least_word_leaves_words :
    finite Int64.minValue ≤ finite (Int64.minValue + 1) ∧
    (finite Int64.minValue).add? (finite (-1)) = some negInf ∧
    (finite (Int64.minValue + 1)).add? (finite (-1)) = some (finite Int64.minValue) ∧
    negInf.Stores ((finite Int64.minValue).value + (finite (-1)).value) ∧
    posInf.Stores ((finite Int64.minValue).value * (finite (-1)).value) ∧
    negInf ≤ finite Int64.minValue ∧
    (finite Int64.minValue).shift (-1) ≤ (finite (Int64.minValue + 1)).shift 0 := by
  obtain ⟨-, -, sums, -, products, -, -, -, adding, shifting⟩ :=
    arithmetic_is_exact (finite Int64.minValue) (finite (-1))
  have below : finite Int64.minValue ≤ finite (Int64.minValue + 1) := by decide
  have sum : (finite Int64.minValue).add? (finite (-1)) = some negInf := by decide
  have product : (finite Int64.minValue).mul? (finite (-1)) = some posInf := by decide
  have inside : (finite (Int64.minValue + 1)).add? (finite (-1)) = some (finite Int64.minValue) := by
    decide
  exact ⟨below, sum, inside, ((sums negInf).mp sum).2, ((products posInf).mp product).2,
    adding _ _ _ _ below (le_refl _) sum inside, shifting _ _ _ below (by decide)⟩

end Dataflow.Bound
