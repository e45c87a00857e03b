import Dataflow.Interval.Bound
import Mathlib.Algebra.Order.Ring.Int

/-!
# Bounds of words

The order of bounds is linear, with every word between the two infinities. On words, sums and products of
bounds are the exact ones saturated: the signs of the operands give the sign of what overflows
(`sign_of_add_eq_none`, `sign_of_mul_eq_none`).

Sums and products of bounds bound the sums and products of the words between them. Saturation is sound for
that, because it is only ever compared with a word: an exact result below every word may as well be the
lower infinity (`saturate_le_finite`, `finite_le_saturate`).
-/

set_option autoImplicit false

namespace Dataflow.Bound

/-! ## The order -/

@[simp] theorem negInf_le (a : Bound) : negInf ≤ a := by
  cases a <;> rfl

@[simp] theorem le_posInf (a : Bound) : a ≤ posInf := by
  cases a <;> rfl

@[simp] theorem not_finite_le_negInf (w : Int64) : ¬ finite w ≤ negInf := by
  intro below
  cases below

@[simp] theorem not_posInf_le_finite (w : Int64) : ¬ posInf ≤ finite w := by
  intro below
  cases below

@[simp] theorem finite_le_finite {v w : Int64} : finite v ≤ finite w ↔ v.toInt ≤ w.toInt :=
  decide_eq_true_iff.trans Int64.le_iff_toInt_le

theorem le_refl (a : Bound) : a ≤ a := by
  cases a with
  | negInf => exact negInf_le _
  | posInf => exact le_posInf _
  | finite w => exact finite_le_finite.mpr (Int.le_refl _)

theorem le_trans {a b c : Bound} (first : a ≤ b) (second : b ≤ c) : a ≤ c := by
  cases a with
  | negInf => exact negInf_le c
  | posInf =>
    cases b with
    | posInf => exact second
    | negInf => cases first
    | finite w => cases first
  | finite v =>
    cases c with
    | posInf => exact le_posInf _
    | negInf =>
      cases b with
      | negInf => cases first
      | finite _ | posInf => cases second
    | finite w =>
      cases b with
      | negInf => cases first
      | posInf => cases second
      | finite u =>
        rw [finite_le_finite] at first second ⊢
        exact Int.le_trans first second

theorem le_antisymm {a b : Bound} (left : a ≤ b) (right : b ≤ a) : a = b := by
  cases a with
  | negInf =>
    cases b with
    | negInf => rfl
    | finite _ | posInf => cases right
  | posInf =>
    cases b with
    | posInf => rfl
    | negInf | finite _ => cases left
  | finite v =>
    cases b with
    | negInf => cases left
    | posInf => cases right
    | finite w =>
      rw [finite_le_finite] at left right
      exact congrArg finite (Int64.toInt_inj.mp (Int.le_antisymm left right))

theorem not_lt {a b : Bound} (below : a ≤ b) : ¬ b < a := fun crossed => crossed below

theorem le_total (a b : Bound) : a ≤ b ∨ b ≤ a := by
  cases a with
  | negInf => exact Or.inl (negInf_le b)
  | posInf => exact Or.inr (le_posInf b)
  | finite v =>
    cases b with
    | negInf => exact Or.inr (negInf_le _)
    | posInf => exact Or.inl (le_posInf _)
    | finite w =>
      rw [finite_le_finite, finite_le_finite]
      exact Int.le_total _ _

/-- A bound that is not below another is above it. -/
theorem le_of_not_le {a b : Bound} (not : ¬ a ≤ b) : b ≤ a := (le_total a b).resolve_left not

theorem min_le_left (a b : Bound) : a.min b ≤ a := by
  unfold min
  split
  · exact le_refl a
  · next not => exact le_of_not_le not

theorem min_le_right (a b : Bound) : a.min b ≤ b := by
  unfold min
  split
  · next below => exact below
  · exact le_refl b

theorem le_max_left (a b : Bound) : a ≤ a.max b := by
  unfold max
  split
  · next below => exact below
  · exact le_refl a

theorem le_max_right (a b : Bound) : b ≤ a.max b := by
  unfold max
  split
  · exact le_refl b
  · next not => exact le_of_not_le not

/-- The lesser of two bounds is one of them. -/
theorem min_eq_or (a b : Bound) : a.min b = a ∨ a.min b = b := by
  unfold min
  split
  · exact Or.inl rfl
  · exact Or.inr rfl

/-- The greater of two bounds is one of them. -/
theorem max_eq_or (a b : Bound) : a.max b = a ∨ a.max b = b := by
  unfold max
  split
  · exact Or.inr rfl
  · exact Or.inl rfl

theorem le_min {a b c : Bound} (left : c ≤ a) (right : c ≤ b) : c ≤ a.min b := by
  rcases min_eq_or a b with same | same <;> rw [same]
  · exact left
  · exact right

theorem max_le {a b c : Bound} (left : a ≤ c) (right : b ≤ c) : a.max b ≤ c := by
  rcases max_eq_or a b with same | same <;> rw [same]
  · exact left
  · exact right

/-! ## Signs of overflow -/

/-- Words whose sum is no word are positive, each of them, exactly when the sum is. -/
theorem sign_of_add_eq_none {a b : Int64} (overflow : Checked.add a b = none) :
    (0 < a ↔ 0 < a.toInt + b.toInt) ∧ (0 < b ↔ 0 < a.toInt + b.toInt) := by
  have lowLeft := Checked.least_le_toInt a
  have highLeft := Checked.toInt_le_greatest a
  have lowRight := Checked.least_le_toInt b
  have highRight := Checked.toInt_le_greatest b
  have outside := Checked.ofInt?_eq_none_iff.mp overflow
  rw [Int64.lt_iff_toInt_lt, Int64.lt_iff_toInt_lt, Int64.toInt_zero]
  -- A summand of the other sign, or zero, would have kept the sum among the words.
  unfold Checked.least Checked.greatest at *
  omega

/-- Words whose product is no word have one sign exactly when the product is positive. -/
theorem sign_of_mul_eq_none {a b : Int64} (overflow : Checked.mul a b = none) :
    (a < 0 ↔ b < 0) ↔ 0 < a.toInt * b.toInt := by
  -- Zero is a word, so neither factor is zero and a factor that is not negative is positive.
  have nonzero : a.toInt * b.toInt ≠ 0 := by
    intro zero
    have outside := Checked.ofInt?_eq_none_iff.mp overflow
    rw [zero] at outside
    revert outside
    decide
  have left : a.toInt ≠ 0 := left_ne_zero_of_mul nonzero
  have right : b.toInt ≠ 0 := right_ne_zero_of_mul nonzero
  rw [Int64.lt_iff_toInt_lt, Int64.lt_iff_toInt_lt, Int64.toInt_zero, mul_pos_iff]
  omega

/-! ## Saturation -/

/-- The bound for an exact integer: the infinity of its sign when it is no word. -/
def saturate (n : Int) : Bound := ofChecked (Checked.ofInt? n) (decide (0 < n))

/-- A checked result with the right sign for its overflow is the saturated one. -/
theorem ofChecked_eq_saturate {k : Int} {positive : Bool}
    (sign : Checked.ofInt? k = none → positive = decide (0 < k)) :
    ofChecked (Checked.ofInt? k) positive = saturate k := by
  unfold saturate
  cases word : Checked.ofInt? k with
  | some w => rfl
  | none => rw [sign word]

@[simp] theorem finite_add?_finite (a b : Int64) :
    (finite a).add? (finite b) = some (saturate (a.toInt + b.toInt)) :=
  congrArg some (ofChecked_eq_saturate fun overflow =>
    decide_eq_decide.mpr (sign_of_add_eq_none overflow).1)

@[simp] theorem shift_finite (a d : Int64) : (finite a).shift d = saturate (a.toInt + d.toInt) :=
  ofChecked_eq_saturate fun overflow => decide_eq_decide.mpr (sign_of_add_eq_none overflow).2

@[simp] theorem finite_mul?_finite (a b : Int64) :
    (finite a).mul? (finite b) = some (saturate (a.toInt * b.toInt)) := by
  refine congrArg some (ofChecked_eq_saturate fun overflow => ?_)
  rw [Bool.beq_eq_decide_eq, decide_eq_decide, decide_eq_decide]
  exact sign_of_mul_eq_none overflow

/-- A word is its own saturation. -/
theorem saturate_eq_finite {k : Int} {w : Int64} (value : w.toInt = k) : saturate k = finite w := by
  rw [saturate, Checked.ofInt?_eq_some_iff.mpr value]
  rfl

/-- An integer below every word saturates to the lower infinity. -/
theorem saturate_eq_negInf {k : Int} (low : k < Checked.least) : saturate k = negInf := by
  have none : Checked.ofInt? k = none := Checked.ofInt?_eq_none_iff.mpr (Or.inl low)
  have sign : decide (0 < k) = false := by
    unfold Checked.least at low
    exact decide_eq_false (by omega)
  rw [saturate, none, sign]
  rfl

/-- An integer above every word saturates to the upper infinity. -/
theorem saturate_eq_posInf {k : Int} (high : Checked.greatest < k) : saturate k = posInf := by
  have none : Checked.ofInt? k = none := Checked.ofInt?_eq_none_iff.mpr (Or.inr high)
  have sign : decide (0 < k) = true := by
    unfold Checked.greatest at high
    exact decide_eq_true (by omega)
  rw [saturate, none, sign]
  rfl

/-- An integer is below every word, the value of a word or above every word. -/
theorem word_cases (k : Int) :
    k < Checked.least ∨ (∃ w : Int64, w.toInt = k) ∨ Checked.greatest < k := by
  cases word : Checked.ofInt? k with
  | some w => exact Or.inr (Or.inl ⟨w, Checked.ofInt?_eq_some_iff.mp word⟩)
  | none => exact (Checked.ofInt?_eq_none_iff.mp word).imp_right Or.inr

/-- Saturation keeps the order of integers. -/
theorem saturate_le_saturate {j k : Int} (below : j ≤ k) : saturate j ≤ saturate k := by
  rcases word_cases j with low | ⟨v, value⟩ | high
  · rw [saturate_eq_negInf low]
    exact negInf_le _
  · rcases word_cases k with low | ⟨w, value'⟩ | high
    · -- A word is not below an integer that is below every word.
      have above := Checked.least_le_toInt v
      omega
    · rw [saturate_eq_finite value, saturate_eq_finite value', finite_le_finite]
      omega
    · rw [saturate_eq_posInf high]
      exact le_posInf _
  · rw [saturate_eq_posInf (Int.lt_of_lt_of_le high below)]
    exact le_posInf _

/-- A saturated integer is below the words that the integer is below. -/
theorem saturate_le_finite {k : Int} {w : Int64} (below : k ≤ w.toInt) : saturate k ≤ finite w :=
  saturate_eq_finite (w := w) rfl ▸ saturate_le_saturate below

/-- A saturated integer is above the words that the integer is above. -/
theorem finite_le_saturate {k : Int} {w : Int64} (above : w.toInt ≤ k) : finite w ≤ saturate k :=
  saturate_eq_finite (w := w) rfl ▸ saturate_le_saturate above

/-! ## Sums -/

/-- The sum with a word is the shift by it. -/
theorem add?_finite (a : Bound) (d : Int64) : a.add? (finite d) = some (a.shift d) := by
  cases a with
  | negInf | posInf => rfl
  | finite v => rw [finite_add?_finite, shift_finite]

/-- Sums keep the order of bounds. -/
theorem add?_le_add? {a b a' b' sum sum' : Bound} (left : a ≤ a') (right : b ≤ b')
    (added : a.add? b = some sum) (added' : a'.add? b' = some sum') : sum ≤ sum' := by
  cases a with
  | negInf => cases b <;> cases added <;> exact negInf_le _
  | posInf =>
    cases a' with
    | posInf => cases b' <;> cases added' <;> exact le_posInf _
    | negInf | finite _ => cases left
  | finite v =>
    cases b with
    | negInf =>
      cases added
      exact negInf_le _
    | posInf =>
      cases b' with
      | posInf => cases a' <;> cases added' <;> exact le_posInf _
      | negInf | finite _ => cases right
    | finite w =>
      cases a' with
      | negInf => cases left
      | posInf => cases b' <;> cases added' <;> exact le_posInf _
      | finite v' =>
        cases b' with
        | negInf => cases right
        | posInf =>
          cases added'
          exact le_posInf _
        | finite w' =>
          rw [finite_add?_finite] at added added'
          cases added
          cases added'
          rw [finite_le_finite] at left right
          exact saturate_le_saturate (by omega)

/-- The sum of two bounds below words is below their sum. -/
theorem add?_le_finite {a b low : Bound} {m n r : Int64} (sum : a.add? b = some low)
    (left : a ≤ finite m) (right : b ≤ finite n) (result : r.toInt = m.toInt + n.toInt) :
    low ≤ finite r := by
  refine add?_le_add? left right sum ?_
  rw [finite_add?_finite, saturate_eq_finite result]

/-- The sum of two bounds above words is above their sum. -/
theorem finite_le_add? {a b high : Bound} {m n r : Int64} (sum : a.add? b = some high)
    (left : finite m ≤ a) (right : finite n ≤ b) (result : r.toInt = m.toInt + n.toInt) :
    finite r ≤ high := by
  refine add?_le_add? left right ?_ sum
  rw [finite_add?_finite, saturate_eq_finite result]

/-- Shifting keeps the order of bounds, and shifting by more goes higher. -/
theorem shift_le_shift_of_le {a b : Bound} {c d : Int64} (below : a ≤ b) (less : c ≤ d) :
    a.shift c ≤ b.shift d :=
  add?_le_add? below (decide_eq_true less) (add?_finite a c) (add?_finite b d)

/-- Shifting keeps the order of bounds. -/
theorem shift_le_shift {a b : Bound} (below : a ≤ b) (d : Int64) : a.shift d ≤ b.shift d :=
  shift_le_shift_of_le below (Int64.le_refl d)

/-- A shifted bound is below the words that lie at least the shift above a word above the bound. -/
theorem shift_le_finite {a : Bound} {m n d : Int64} (below : a ≤ finite m)
    (shifted : m.toInt + d.toInt ≤ n.toInt) : a.shift d ≤ finite n := by
  refine le_trans (shift_le_shift below d) ?_
  rw [shift_finite]
  exact saturate_le_finite shifted

/-- A shifted bound is above the words that lie at most the shift above a word below the bound. -/
theorem finite_le_shift {a : Bound} {m n d : Int64} (above : finite m ≤ a)
    (shifted : n.toInt ≤ m.toInt + d.toInt) : finite n ≤ a.shift d := by
  refine le_trans ?_ (shift_le_shift above d)
  rw [shift_finite]
  exact finite_le_saturate shifted

/-- Two bounds below words have a sum. -/
theorem exists_add?_of_ne_posInf {a b : Bound} (left : a ≠ posInf) (right : b ≠ posInf) :
    ∃ sum, a.add? b = some sum := by
  cases a <;> cases b <;> simp_all [add?]

/-- Two bounds above words have a sum. -/
theorem exists_add?_of_ne_negInf {a b : Bound} (left : a ≠ negInf) (right : b ≠ negInf) :
    ∃ sum, a.add? b = some sum := by
  cases a <;> cases b <;> simp_all [add?]

/-! ## Products of bounds from zero up -/

theorem zero_le_finite {w : Int64} : finite 0 ≤ finite w ↔ 0 ≤ w.toInt := finite_le_finite

/-- A bound from zero up below a word is a word from zero up. -/
theorem exists_finite_of_le {a : Bound} {m : Int64} (nonneg : finite 0 ≤ a) (below : a ≤ finite m) :
    ∃ v, a = finite v ∧ 0 ≤ v.toInt ∧ v.toInt ≤ m.toInt := by
  cases a with
  | negInf => exact absurd nonneg (not_finite_le_negInf 0)
  | posInf => exact absurd below (not_posInf_le_finite m)
  | finite v => exact ⟨v, rfl, zero_le_finite.mp nonneg, finite_le_finite.mp below⟩

/-- The product of two bounds from zero up, below words, is below their product. -/
theorem mul?_le_finite {a b low : Bound} {m n r : Int64} (product : a.mul? b = some low)
    (nonnegLeft : finite 0 ≤ a) (nonnegRight : finite 0 ≤ b) (left : a ≤ finite m)
    (right : b ≤ finite n) (result : r.toInt = m.toInt * n.toInt) : low ≤ finite r := by
  -- Neither bound is infinite: each lies between zero and a word.
  obtain ⟨v, rfl, hv, vm⟩ := exists_finite_of_le nonnegLeft left
  obtain ⟨w, rfl, hw, wn⟩ := exists_finite_of_le nonnegRight right
  rw [finite_mul?_finite] at product
  cases product
  refine saturate_le_finite ?_
  rw [result]
  exact Int.mul_le_mul vm wn hw (Int.le_trans hv vm)

@[simp] theorem isPositive_posInf : posInf.isPositive = true := rfl

/-- An infinite bound times a bound from zero up is infinite, when there is a product. -/
theorem mul?_posInf {a high : Bound} (nonneg : finite 0 ≤ a) :
    posInf.mul? a = some high ∨ a.mul? posInf = some high → high = posInf := by
  have positive : a ≠ finite 0 → a.isPositive = true := by
    intro other
    refine decide_eq_true fun below => other ?_
    cases a with
    | negInf => cases nonneg
    | posInf => cases below
    | finite w =>
      rw [finite_le_finite] at below nonneg
      exact congrArg finite (Int64.toInt_inj.mp (Int.le_antisymm below nonneg))
  intro product
  by_cases zero : a = finite 0
  · -- Zero times an infinity has no value.
    subst zero
    rcases product with product | product <;> cases product
  · have sign := positive zero
    rcases product with product | product <;> cases a <;> simp_all [mul?, infinity]

/-- The product of two bounds from zero up, above words from zero up, is above their product. -/
theorem finite_le_mul? {a b high : Bound} {m n r : Int64} (product : a.mul? b = some high)
    (nonnegLeft : 0 ≤ m.toInt) (nonnegRight : 0 ≤ n.toInt) (left : finite m ≤ a)
    (right : finite n ≤ b) (result : r.toInt = m.toInt * n.toInt) : finite r ≤ high := by
  have fromZero : finite 0 ≤ a := le_trans (zero_le_finite.mpr nonnegLeft) left
  have fromZero' : finite 0 ≤ b := le_trans (zero_le_finite.mpr nonnegRight) right
  cases a with
  | negInf => exact absurd left (not_finite_le_negInf m)
  | posInf =>
    rw [mul?_posInf fromZero' (Or.inl product)]
    exact le_posInf _
  | finite v =>
    cases b with
    | negInf => exact absurd right (not_finite_le_negInf n)
    | posInf =>
      rw [mul?_posInf fromZero (Or.inr product)]
      exact le_posInf _
    | finite w =>
      rw [finite_mul?_finite] at product
      cases product
      rw [finite_le_finite] at left right
      refine finite_le_saturate ?_
      rw [result]
      exact Int.mul_le_mul left right nonnegRight (Int.le_trans nonnegLeft left)

/-- Bounds from zero up have squares. -/
theorem exists_square {a : Bound} (nonneg : finite 0 ≤ a) : ∃ square, a.mul? a = some square := by
  cases a with
  | negInf => cases nonneg
  | finite v => exact ⟨_, rfl⟩
  | posInf => exact ⟨_, rfl⟩

/-- Squares keep the order of bounds from zero up. -/
theorem square_le_square {a b square square' : Bound} (nonneg : finite 0 ≤ a) (below : a ≤ b)
    (squared : a.mul? a = some square) (squared' : b.mul? b = some square') : square ≤ square' := by
  cases b with
  | negInf =>
    have impossible := le_trans nonneg below
    cases impossible
  | posInf =>
    cases squared'
    exact le_posInf _
  | finite w =>
    obtain ⟨v, rfl, fromZero, le⟩ := exists_finite_of_le nonneg below
    rw [finite_mul?_finite] at squared squared'
    cases squared
    cases squared'
    exact saturate_le_saturate (Int.mul_le_mul le le fromZero (Int.le_trans fromZero le))

end Dataflow.Bound
