import Dataflow.Proofs.Interval.Laws
import Mathlib.Data.Set.Card
import Mathlib.Data.Set.Finite.Lattice
import Mathlib.Order.Interval.Finset.Nat

/-!
# Widening converges

Widening goes above both of its arguments and keeps intervals in order and in the size
(`ordered_widen`, `contained_widen_right`, `Bounded.widen`).

However the new values are chosen, a value that is widened again and again changes four times at most:
from the bottom to its first value, once for each end that becomes infinite or, with booleans, for each
boolean that is added, and once to the top. `slack` counts the changes that are left. Every change lowers
it (`slack_widen_lt`), so along a sequence it tells the changes apart and there are no more of them than it
has values (`changes_le_four`). The new values need not be in order.
-/

set_option autoImplicit false

namespace Dataflow.Interval

variable {size : IntervalSize} {a b : Interval}

/-! ## Widening is an upper bound -/

/-- A low end that moves outward goes below both, and one that does not is below both. -/
theorem snapLow_le (old new : Bound) :
    (if old ≤ new then old else .negInf) ≤ old ∧ (if old ≤ new then old else .negInf) ≤ new := by
  split
  · next below => exact ⟨Bound.le_refl old, below⟩
  · exact ⟨Bound.negInf_le old, Bound.negInf_le new⟩

/-- A high end that moves outward goes above both, and one that does not is above both. -/
theorem le_snapHigh (old new : Bound) :
    old ≤ (if new ≤ old then old else .posInf) ∧ new ≤ (if new ≤ old then old else .posInf) := by
  split
  · next above => exact ⟨Bound.le_refl old, above⟩
  · exact ⟨Bound.le_posInf old, Bound.le_posInf new⟩

/-- Widening of intervals in order is in order. -/
theorem ordered_widen (left : a.Ordered) (right : b.Ordered) : (widen a b).1.Ordered := by
  unfold widen
  split
  · exact right
  · next low high low' high' =>
    have down := (snapLow_le low low').1
    have up := (le_snapHigh high high').1
    exact Bound.le_trans down (Bound.le_trans left up)
  · exact ordered_join left right

/-- Widening goes above the new value. -/
theorem contained_widen_right (a b : Interval) : Contained b (widen a b).1 := by
  unfold widen
  split
  · exact .refl _
  · next low high low' high' => exact .int (snapLow_le low low').2 (le_snapHigh high high').2
  · exact contained_join_right a b

/-- Nothing new leaves a value as it was. -/
theorem widen_bottom (a : Interval) : (widen a bottom).1 = a := by
  cases a <;> rfl

/-- Widening of intervals of the size is of the size. -/
theorem Bounded.widen (left : Bounded size a) (right : Bounded size b) :
    Bounded size (Interval.widen a b).1 := by
  by_cases first : a = bottom
  · subst first
    exact right
  · by_cases nothing : b = bottom
    · subst nothing
      rw [widen_bottom]
      exact left
    · have stored : Stored size a := ⟨⟨first, left.ordered⟩, left.inSize⟩
      have stored' : Stored size b := ⟨⟨nothing, right.ordered⟩, right.inSize⟩
      have widened := stored.widen stored'
      exact ⟨widened.ordered, widened.inSize⟩

/-! ## Changes that are left -/

/-- How often a value can still change by widening. -/
def slack : Interval → Nat
  | bottom => 4
  | int low high => 1 + (if low = .negInf then 0 else 1) + (if high = .posInf then 0 else 1)
  | bool low high => 1 + low.toNat + (!high).toNat
  | top => 0

/-- Once a value is no longer the bottom, three changes are left. -/
theorem slack_le_three (different : a ≠ bottom) : slack a ≤ 3 := by
  cases a with
  | bottom => exact absurd rfl different
  | top => exact Nat.zero_le _
  | bool low high => cases low <;> cases high <;> decide
  | int low high =>
    simp only [slack]
    split <;> split <;> omega

/-- An end that moved was not infinite, and is now. -/
theorem slack_snap_lt {low high low' high' : Bound}
    (changed : (widen (int low high) (int low' high')).1 ≠ int low high) :
    slack (widen (int low high) (int low' high')).1 < slack (int low high) := by
  have lowFinite : ¬ low ≤ low' → low ≠ .negInf := by
    rintro outward rfl
    exact outward (Bound.negInf_le low')
  have highFinite : ¬ high' ≤ high → high ≠ .posInf := by
    rintro outward rfl
    exact outward (Bound.le_posInf high')
  simp only [widen] at changed ⊢
  by_cases inward : low ≤ low'
  · by_cases inward' : high' ≤ high
    · rw [if_pos inward, if_pos inward'] at changed
      exact absurd rfl changed
    · simp [slack, inward, inward', highFinite inward']
  · by_cases inward' : high' ≤ high
    · simp [slack, inward, inward', lowFinite inward]
    · simp [slack, inward, inward', lowFinite inward, highFinite inward']

/-- **Every change by widening uses up slack.** -/
theorem slack_widen_lt (changed : (widen a b).1 ≠ a) : slack (widen a b).1 < slack a := by
  cases a with
  | bottom => exact Nat.lt_succ_of_le (slack_le_three changed)
  | top => cases b <;> exact absurd rfl changed
  | int low high =>
    cases b with
    | bottom => exact absurd rfl changed
    | int low' high' => exact slack_snap_lt changed
    | bool _ _ | top =>
      change 0 < slack (int low high)
      simp only [slack]
      omega
  | bool low high =>
    cases b with
    | bottom => exact absurd rfl changed
    | bool low' high' =>
      revert low high low' high'
      decide
    | int _ _ | top =>
      change 0 < slack (bool low high)
      simp only [slack]
      omega

/-! ## Sequences -/

/-- The bottom, widened by one value after another. -/
def widened (values : Nat → Interval) : Nat → Interval
  | 0 => bottom
  | k + 1 => (widen (widened values k) (values k)).1

/-- The steps at which a widened value changes. -/
def changes (values : Nat → Interval) : Set Nat :=
  {k | widened values (k + 1) ≠ widened values k}

/-- Along a sequence slack never comes back. -/
theorem antitone_slack_widened (values : Nat → Interval) :
    Antitone fun k => slack (widened values k) := by
  refine antitone_nat_of_succ_le fun k => ?_
  by_cases same : widened values (k + 1) = widened values k
  · rw [same]
  · exact Nat.le_of_lt (slack_widen_lt same)

/-- **A value changes at most four times by widening**, whatever it is widened by. -/
theorem changes_le_four (values : Nat → Interval) : (changes values).encard ≤ 4 := by
  have falls := antitone_slack_widened values
  -- At a change there is slack left, never more than at the bottom.
  have range : Set.MapsTo (fun k => slack (widened values k)) (changes values) (Finset.Icc 1 4) := by
    intro k change
    have left : slack (widened values (k + 1)) < slack (widened values k) := slack_widen_lt change
    have most : slack (widened values k) ≤ slack (widened values 0) := falls (Nat.zero_le k)
    have start : slack (widened values 0) = 4 := rfl
    simp only [Finset.coe_Icc, Set.mem_Icc]
    omega
  -- Two changes have different slack, since the first of them uses some up.
  have apart : ∀ {j k}, j ∈ changes values → j < k →
      slack (widened values k) < slack (widened values j) := by
    intro j k change before
    exact Nat.lt_of_le_of_lt (falls (Nat.succ_le_of_lt before)) (slack_widen_lt change)
  have injective : Set.InjOn (fun k => slack (widened values k)) (changes values) := by
    intro j first k second same
    rcases Nat.lt_trichotomy j k with before | equal | after
    · exact absurd same (Nat.ne_of_gt (apart first before))
    · exact equal
    · exact absurd same (Nat.ne_of_lt (apart second after))
  calc (changes values).encard ≤ (Finset.Icc 1 4 : Set Nat).encard :=
        Set.encard_le_encard_of_injOn range injective
    _ = 4 := by rw [Set.encard_coe_eq_coe_finsetCard]; rfl

/-- After the last change a widened value stays. -/
theorem exists_settled (values : Nat → Interval) :
    ∃ n, ∀ k, n ≤ k → widened values k = widened values n := by
  have finite : (changes values).Finite := Set.finite_of_encard_le_coe (changes_le_four values)
  obtain ⟨last, bound⟩ := finite.bddAbove
  refine ⟨last + 1, fun k after => ?_⟩
  induction k, after using Nat.le_induction with
  | base => rfl
  | succ k after ih =>
    have unchanged : k ∉ changes values := fun change => Nat.not_le_of_lt after (bound change)
    exact (not_not.mp unchanged).trans ih

/-- **Widening is an upper bound and forces convergence.** Of intervals in order it makes one in order
above both, and of intervals of the size one of the size. Whatever sequence of values a value that starts
at the bottom is widened by, it changes at most four times, so it stays from some step on. -/
theorem widening_bounds_and_converges (size : IntervalSize) :
    (∀ a b : Interval, a.Ordered → b.Ordered → (widen a b).1.Ordered ∧
      (lattice size).atMost a (widen a b).1 = true ∧ (lattice size).atMost b (widen a b).1 = true) ∧
    (∀ a b, Bounded size a → Bounded size b → Bounded size (widen a b).1) ∧
    ∀ values : Nat → Interval, (changes values).encard ≤ 4 ∧
      ∃ n, ∀ k, n ≤ k → widened values k = widened values n := by
  refine ⟨?_, fun a b => Bounded.widen, fun values => ⟨changes_le_four values, exists_settled values⟩⟩
  intro a b left right
  refine ⟨ordered_widen left right, atMost_widen_left a b, ?_⟩
  exact atMost_iff_contained.mpr (contained_widen_right a b)

/-- Four changes do happen: the first value, each end in turn, and at last a boolean. -/
def unsettled : Nat → Interval
  | 0 => constant 0
  | 1 => constant (-1)
  | 2 => constant 1
  | _ => boolean true

/-- The sequence that takes all four changes takes no fifth one, and each value on it is in order. -/
theorem unsettled_changes_four_times :
    (∀ k, (unsettled k).Ordered) ∧ {0, 1, 2, 3} ⊆ changes unsettled ∧ (changes unsettled).encard ≤ 4 ∧
    (widen (unsettled 0) (unsettled 1)).1 = int .negInf (.finite 0) ∧
    (widen (unsettled 0) (unsettled 1)).1.Ordered := by
  have ordered : ∀ k, (unsettled k).Ordered := by
    intro k
    unfold unsettled
    split <;> first | exact (proper_constant _).ordered | exact (proper_boolean _).ordered
  obtain ⟨bounds, -, sequences⟩ := widening_bounds_and_converges 0
  have steps : ∀ k < 4, widened unsettled (k + 1) ≠ widened unsettled k := by decide
  refine ⟨ordered, ?_, (sequences unsettled).1, by decide, (bounds _ _ (ordered 0) (ordered 1)).1⟩
  rintro k (rfl | rfl | rfl | rfl) <;> exact steps _ (by decide)

end Dataflow.Interval
