import Dataflow.Proofs.Interval.Order
import Dataflow.Proofs.ValueLattice.Laws

/-!
# The lattice of ordered intervals

Containment orders all intervals, and joins are least upper bounds for all of them. Meets are greatest
lower bounds only for intervals whose ends are in order: an interval whose ends cross has no values but is
not `bottom`, and lies below two intervals whose meet is `bottom`. The intervals in order are closed under
both operations (`ordered_join`, `ordered_meet`) and form a lattice (`ordered_intervals_form_lattice`).
-/

set_option autoImplicit false

namespace Dataflow.Interval

open ValueLattice

/-- A join of intervals in order is in order. -/
theorem ordered_join {a b : Interval} (left : a.Ordered) (right : b.Ordered) :
    (a.join b).Ordered := by
  cases a with
  | bottom => exact right
  | top => cases b <;> exact trivial
  | int low high =>
    cases b with
    | bottom => exact left
    | bool _ _ | top => exact trivial
    | int low' high' =>
      -- The hull reaches from below the first low end to above the first high end.
      have down : low.min low' ≤ low := Bound.min_le_left low low'
      have up : high ≤ high.max high' := Bound.le_max_left high high'
      exact Bound.le_trans down (Bound.le_trans left up)
  | bool low high =>
    cases b with
    | bottom => exact left
    | int _ _ | top => exact trivial
    | bool low' high' => exact boolLe_hull left right

/-- An interval in order that is contained in two intervals is contained in their meet. -/
theorem Contained.le_meet {a b c : Interval} (ordered : c.Ordered) (left : Contained c a)
    (right : Contained c b) : Contained c (a.meet b) := by
  cases left with
  | bottom => exact .bottom _
  | top => exact right
  | int down up =>
    cases right with
    | top => exact .int down up
    | int down' up' =>
      -- The common ends enclose those of an interval in order, so they do not cross.
      have low := Bound.max_le down down'
      have high := Bound.le_min up up'
      rw [Interval.meet, range_eq_int (Bound.le_trans low (Bound.le_trans ordered high))]
      exact .int low high
  | bool down up =>
    cases right with
    | top => exact .bool down up
    | bool down' up' =>
      have low := boolMax_le down down'
      have high := le_boolMin up up'
      rw [Interval.meet, boolRange_eq, if_pos (boolLe_trans low (boolLe_trans ordered high))]
      exact .bool low high

/-- The strict order is strict. -/
theorem below_self (a : Interval) : below a a = false := by
  simp [below]

/-- Containment orders the intervals, with least upper and greatest lower bounds among those in order. -/
theorem orderLaws_lattice (size : IntervalSize) : (lattice size).OrderLaws Ordered where
  toJoinLaws := joinLaws_lattice size
  bottom_mem := trivial
  top_mem := trivial
  join_mem := ordered_join
  meet_mem := ordered_meet
  le_top := fun a => atMost_iff_contained.mpr (.top a)
  meet_le_left := (meetLaws_lattice size).meet_le_left
  meet_le_right := fun a b => atMost_iff_contained.mpr (contained_meet_right a b)
  le_meet := by
    intro a b c ordered
    rw [atMost_iff_contained, atMost_iff_contained, atMost_iff_contained]
    exact Contained.le_meet ordered
  below_irrefl := below_self

/-- **The intervals in order form a lattice**, for every size: joins and meets are commutative,
associative and idempotent, absorb each other and stay in order, with `bottom` and `top` as identities and
annihilators; the strict order is irreflexive, transitive and antisymmetric; one interval is at most
another exactly when their join is the other and exactly when their meet is the one; joins are least upper
and meets greatest lower bounds. So the checks of these laws find no violation on any such intervals. -/
theorem ordered_intervals_form_lattice (size : IntervalSize) :
    (lattice size).LatticeLaws Ordered ∧
    ∀ (text : Interval → String) (elements : List Interval), (∀ a ∈ elements, a.Ordered) →
      ∀ family, family ≠ .covers → (lattice size).check text elements family = [] := by
  have laws := (orderLaws_lattice size).latticeLaws
  refine ⟨laws, ?_⟩
  intro text elements values family other
  exact laws.check_eq_nil text values other

/-- Three intervals without a common value, two of them at opposite ends of the integers: the meet of the
first two is `bottom` and the join with the third is `top`, and still the first absorbs both. -/
theorem distant_intervals_absorb :
    (int .posInf .posInf).Ordered ∧ (int .negInf .negInf).Ordered ∧ (bool true true).Ordered ∧
    join (int .posInf .posInf) (meet (int .posInf .posInf) (int .negInf .negInf)) = int .posInf .posInf ∧
    meet (int .posInf .posInf) (join (int .posInf .posInf) (bool true true)) = int .posInf .posInf ∧
    (lattice 0).check describe [int .posInf .posInf, int .negInf .negInf, bool true true] .absorption
      = [] := by
  have up : (int .posInf .posInf).Ordered := Bound.le_posInf _
  have down : (int .negInf .negInf).Ordered := Bound.negInf_le _
  have truth : (bool true true).Ordered := rfl
  obtain ⟨laws, checks⟩ := ordered_intervals_form_lattice 0
  refine ⟨up, down, truth, laws.join_meet_self up down, laws.meet_join_self up truth, ?_⟩
  apply checks describe _ _ .absorption LawFamily.noConfusion
  simp [up, down, truth]

end Dataflow.Interval
