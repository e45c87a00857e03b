import Dataflow.Proofs.Interval.Order

/-!
# Marks of ends

With a size `N` the ends of intervals are the integers from `-N` to `N` and the infinities. Marking the
infinities by `-(N + 2)` and `N + 2` turns statements about ends into linear arithmetic: on the ends of a
size the order of bounds is the order of marks (`Fits.le_iff_mark_le`), and which integers an interval
has can be read from the marks of its ends (`has_int_iff`). The marks are far enough out that an infinity
stays beyond the size when it is moved by one.
-/

set_option autoImplicit false

namespace Dataflow

namespace Bound

/-- A bound is at most an integer. -/
def Under : Bound → Int → Prop
  | negInf, _ => True
  | finite w, k => w.toInt ≤ k
  | posInf, _ => False

/-- A bound is at least an integer. -/
def Over : Bound → Int → Prop
  | negInf, _ => False
  | finite w, k => k ≤ w.toInt
  | posInf, _ => True

/-- The integer of a bound, two beyond the size for the infinities. -/
def mark (size : IntervalSize) : Bound → Int
  | negInf => -(size.toNat + 2)
  | finite w => w.toInt
  | posInf => size.toNat + 2

/-- Low ends of a size: infinite or within it. -/
def LowEnd (size : IntervalSize) (a : Bound) : Prop := a = negInf ∨ a.Within size

/-- High ends of a size: infinite or within it. -/
def HighEnd (size : IntervalSize) (a : Bound) : Prop := a = posInf ∨ a.Within size

/-- Bounds that are infinite or within a size. -/
def Fits (size : IntervalSize) : Bound → Prop
  | finite w => (finite w).Within size
  | _ => True

variable {size : IntervalSize} {a b : Bound}

/-! ## Ends -/

theorem LowEnd.fits (low : a.LowEnd size) : a.Fits size := by
  cases a with
  | finite w => exact low.resolve_left Bound.noConfusion
  | negInf | posInf => exact trivial

theorem HighEnd.fits (high : a.HighEnd size) : a.Fits size := by
  cases a with
  | finite w => exact high.resolve_left Bound.noConfusion
  | negInf | posInf => exact trivial

/-- The lesser of two high ends is a high end. -/
theorem HighEnd.min (left : a.HighEnd size) (right : b.HighEnd size) : (a.min b).HighEnd size := by
  rcases min_eq_or a b with same | same <;> rw [same]
  · exact left
  · exact right

/-- The greater of two low ends is a low end. -/
theorem LowEnd.max (left : a.LowEnd size) (right : b.LowEnd size) : (a.max b).LowEnd size := by
  rcases max_eq_or a b with same | same <;> rw [same]
  · exact left
  · exact right

/-- A low end is marked below the size, when it is infinite, or within it. -/
theorem LowEnd.mark_range (low : a.LowEnd size) :
    a.mark size = -(size.toNat + 2) ∨
      -(size.toNat : Int) ≤ a.mark size ∧ a.mark size ≤ size.toNat := by
  rcases low with rfl | within
  · exact Or.inl rfl
  · cases a with
    | finite w => exact Or.inr within
    | negInf | posInf => exact within.elim

/-- A high end is marked above the size, when it is infinite, or within it. -/
theorem HighEnd.mark_range (high : a.HighEnd size) :
    a.mark size = size.toNat + 2 ∨
      -(size.toNat : Int) ≤ a.mark size ∧ a.mark size ≤ size.toNat := by
  rcases high with rfl | within
  · exact Or.inl rfl
  · cases a with
    | finite w => exact Or.inr within
    | negInf | posInf => exact within.elim

/-- A low end is at most an integer when its mark is, and when it is infinite. -/
theorem LowEnd.under_iff (low : a.LowEnd size) {k : Int} :
    a.Under k ↔ a.mark size = -(size.toNat + 2) ∨ a.mark size ≤ k := by
  rcases low with rfl | within
  · exact iff_of_true trivial (Or.inl rfl)
  · cases a with
    | finite w =>
      obtain ⟨above, -⟩ := within
      exact ⟨Or.inr, fun either => either.resolve_left (by simp only [mark]; omega)⟩
    | negInf | posInf => exact within.elim

/-- A high end is at least an integer when its mark is, and when it is infinite. -/
theorem HighEnd.over_iff (high : a.HighEnd size) {k : Int} :
    a.Over k ↔ a.mark size = size.toNat + 2 ∨ k ≤ a.mark size := by
  rcases high with rfl | within
  · exact iff_of_true trivial (Or.inl rfl)
  · cases a with
    | finite w =>
      obtain ⟨-, below⟩ := within
      exact ⟨Or.inr, fun either => either.resolve_left (by simp only [mark]; omega)⟩
    | negInf | posInf => exact within.elim

theorem shift_zero (a : Bound) : a.shift 0 = a := by
  cases a with
  | negInf | posInf => rfl
  | finite w =>
    have same : w.toInt = w.toInt + (0 : Int64).toInt := (Int.add_zero _).symm
    rw [shift_finite, saturate_eq_finite same]

/-! ## The order -/

theorem finite_lt_finite {v w : Int64} : finite v < finite w ↔ v.toInt < w.toInt :=
  (not_congr finite_le_finite).trans Int.not_le

/-- On bounds that fit the size, the order is that of marks. -/
theorem Fits.le_iff_mark_le (left : a.Fits size) (right : b.Fits size) :
    a ≤ b ↔ a.mark size ≤ b.mark size := by
  cases a with
  | negInf =>
    refine iff_of_true (negInf_le b) ?_
    cases b with
    | negInf => exact le_rfl
    | posInf =>
      simp only [mark]
      omega
    | finite w =>
      obtain ⟨above, -⟩ := right
      simp only [mark]
      omega
  | posInf =>
    cases b with
    | posInf => exact iff_of_true (le_posInf _) le_rfl
    | negInf =>
      refine iff_of_false (fun below => by cases below) ?_
      simp only [mark]
      omega
    | finite w =>
      obtain ⟨-, below⟩ := right
      refine iff_of_false (not_posInf_le_finite w) ?_
      simp only [mark]
      omega
  | finite v =>
    obtain ⟨above, below⟩ := left
    cases b with
    | negInf =>
      refine iff_of_false (not_finite_le_negInf v) ?_
      simp only [mark]
      omega
    | posInf =>
      refine iff_of_true (le_posInf _) ?_
      simp only [mark]
      omega
    | finite w => exact finite_le_finite

end Bound

namespace Interval

variable {size : IntervalSize} {a b : Bound}

/-! ## The integers of an interval -/

/-- The integers that an interval has. -/
def Has : Interval → Int → Prop
  | int low high, k => low.Under k ∧ high.Over k
  | top, _ => True
  | _, _ => False

/-- An interval covers the words whose values it has. -/
theorem covers_int_iff {c : Interval} {w : Int64} : Covers c (.int w) ↔ c.Has w.toInt := by
  have atMost : ∀ low : Bound, low ≤ .finite w ↔ low.Under w.toInt := by
    intro low
    cases low with
    | negInf => exact iff_of_true (Bound.negInf_le _) trivial
    | finite v => exact Bound.finite_le_finite
    | posInf => exact iff_of_false (Bound.not_posInf_le_finite w) id
  have atLeast : ∀ high : Bound, .finite w ≤ high ↔ high.Over w.toInt := by
    intro high
    cases high with
    | negInf => exact iff_of_false (Bound.not_finite_le_negInf w) id
    | finite v => exact Bound.finite_le_finite
    | posInf => exact iff_of_true (Bound.le_posInf _) trivial
  cases c with
  | int low high => exact and_congr (atMost low) (atLeast high)
  | bottom | bool _ _ | top => exact Iff.rfl

/-- Which integers an interval within the size has can be read from the marks of its ends. -/
theorem has_int_iff {low high : Bound} (inSize : (int low high).InSize size) {k : Int} :
    (int low high).Has k ↔
      (low.mark size = -(size.toNat + 2) ∨ low.mark size ≤ k) ∧
      (high.mark size = size.toNat + 2 ∨ k ≤ high.mark size) := by
  have lowEnd : low.LowEnd size := inSize.1
  have highEnd : high.HighEnd size := inSize.2
  exact and_congr lowEnd.under_iff highEnd.over_iff

theorem Bounded.lowEnd (bounded : Bounded size (int a b)) : a.LowEnd size := bounded.inSize.1

theorem Bounded.highEnd (bounded : Bounded size (int a b)) : b.HighEnd size :=
  bounded.inSize.2

/-- The marks of the ends of an interval of a size are in order. -/
theorem Bounded.mark_le (bounded : Bounded size (int a b)) : a.mark size ≤ b.mark size :=
  (bounded.lowEnd.fits.le_iff_mark_le bounded.highEnd.fits).mp bounded.ordered

/-! ## Ends that operations make -/

/-- The lesser of two bounds has the lesser mark. -/
theorem mark_min (left : a.Fits size) (right : b.Fits size) :
    (a.min b).mark size = min (a.mark size) (b.mark size) := by
  have order := left.le_iff_mark_le right
  unfold Bound.min
  split
  · next below => exact (min_eq_left (order.mp below)).symm
  · next above => exact (min_eq_right (le_of_not_ge (mt order.mpr above))).symm

/-- The greater of two bounds has the greater mark. -/
theorem mark_max (left : a.Fits size) (right : b.Fits size) :
    (a.max b).mark size = max (a.mark size) (b.mark size) := by
  have order := left.le_iff_mark_le right
  unfold Bound.max
  split
  · next below => exact (max_eq_right (order.mp below)).symm
  · next above => exact (max_eq_left (le_of_not_ge (mt order.mpr above))).symm

/-- A word next to the size moves to a word. -/
theorem exists_shift {w d : Int64} (within : (Bound.finite w).Within size) (least : -1 ≤ d.toInt)
    (most : d.toInt ≤ 1) :
    ∃ u : Int64, (Bound.finite w).shift d = .finite u ∧ u.toInt = w.toInt + d.toInt := by
  have small : size.toNat < 2 ^ 32 := UInt32.toNat_lt size
  obtain ⟨low, high⟩ := within
  have value : (Int64.ofInt (w.toInt + d.toInt)).toInt = w.toInt + d.toInt := by
    apply Checked.toInt_ofInt
    · unfold Checked.least
      omega
    · unfold Checked.greatest
      omega
  refine ⟨_, ?_, value⟩
  rw [Bound.shift_finite, Bound.saturate_eq_finite value]

/-- A word that is not below the size is cut at its upper edge as a low end. -/
theorem mark_normalizeLow_finite {u : Int64} (above : -(size.toNat : Int) ≤ u.toInt) :
    (normalizeLow size.word (.finite u)).mark size = min u.toInt size.toNat := by
  have word := size.toInt_word
  have notBelow : ¬ Bound.finite u < .finite (-size.word) := by
    rw [Bound.finite_lt_finite, size.toInt_neg_word]
    omega
  rw [normalizeLow, if_neg notBelow]
  split
  · next beyond =>
    rw [Bound.finite_lt_finite] at beyond
    rw [Bound.mark]
    omega
  · next inside =>
    rw [Bound.finite_lt_finite] at inside
    rw [Bound.mark]
    omega

/-- A word that is not above the size is cut at its lower edge as a high end. -/
theorem mark_normalizeHigh_finite {u : Int64} (below : u.toInt ≤ size.toNat) :
    (normalizeHigh size.word (.finite u)).mark size = max (-(size.toNat : Int)) u.toInt := by
  have word := size.toInt_neg_word
  have notAbove : ¬ Bound.finite size.word < .finite u := by
    rw [Bound.finite_lt_finite, size.toInt_word]
    omega
  rw [normalizeHigh, if_neg notAbove]
  split
  · next beyond =>
    rw [Bound.finite_lt_finite] at beyond
    rw [Bound.mark]
    omega
  · next inside =>
    rw [Bound.finite_lt_finite] at inside
    rw [Bound.mark]
    omega

/-- A low end that is moved up by at most one and brought into the size. -/
theorem mark_normalizeLow_shift (low : a.LowEnd size) {d : Int64} (least : 0 ≤ d.toInt)
    (most : d.toInt ≤ 1) :
    (a.mark size = -(size.toNat + 2) →
      (normalizeLow size.word (a.shift d)).mark size = -(size.toNat + 2)) ∧
    (a.mark size ≠ -(size.toNat + 2) →
      (normalizeLow size.word (a.shift d)).mark size = min (a.mark size + d.toInt) size.toNat) := by
  rcases low with rfl | within
  · have infinite : normalizeLow size.word (Bound.negInf.shift d) = .negInf :=
      if_pos (Bound.not_finite_le_negInf _)
    rw [infinite]
    exact ⟨fun _ => rfl, fun finite => absurd rfl finite⟩
  · cases a with
    | negInf | posInf => exact within.elim
    | finite w =>
      obtain ⟨u, moved, value⟩ := exists_shift within (by omega) most
      obtain ⟨above, below⟩ := within
      rw [moved, mark_normalizeLow_finite (by omega), value, Bound.mark]
      exact ⟨fun infinite => by omega, fun _ => rfl⟩

/-- A high end that is moved down by at most one and brought into the size. -/
theorem mark_normalizeHigh_shift (high : a.HighEnd size) {d : Int64} (least : -1 ≤ d.toInt)
    (most : d.toInt ≤ 0) :
    (a.mark size = size.toNat + 2 →
      (normalizeHigh size.word (a.shift d)).mark size = size.toNat + 2) ∧
    (a.mark size ≠ size.toNat + 2 →
      (normalizeHigh size.word (a.shift d)).mark size =
        max (-(size.toNat : Int)) (a.mark size + d.toInt)) := by
  rcases high with rfl | within
  · have infinite : normalizeHigh size.word (Bound.posInf.shift d) = .posInf :=
      if_pos (Bound.not_posInf_le_finite _)
    rw [infinite]
    exact ⟨fun _ => rfl, fun finite => absurd rfl finite⟩
  · cases a with
    | negInf | posInf => exact within.elim
    | finite w =>
      obtain ⟨u, moved, value⟩ := exists_shift within least (by omega)
      obtain ⟨above, below⟩ := within
      rw [moved, mark_normalizeHigh_finite (by omega), value, Bound.mark]
      exact ⟨fun infinite => by omega, fun _ => rfl⟩

end Interval

end Dataflow
