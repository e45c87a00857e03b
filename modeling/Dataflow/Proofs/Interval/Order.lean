import Dataflow.Proofs.Env.Order
import Dataflow.Proofs.Interval.Convergence

/-!
# The order of intervals

Containment orders the intervals. Joins are least upper bounds (`joinLaws_lattice`), meets are monotone
(`meetLaws_lattice`), and so is bringing an interval into the size (`Contained.normalize`).
-/

set_option autoImplicit false

namespace Dataflow.Interval

open Env

variable {size : IntervalSize}

/-! ## Containment -/

/-- What it means that an interval is contained in another. -/
inductive Contained : Interval → Interval → Prop
  | bottom (b : Interval) : Contained bottom b
  | top (a : Interval) : Contained a top
  | int {low high low' high' : Bound} : low' ≤ low → high ≤ high' →
      Contained (int low high) (int low' high')
  | bool {low high low' high' : Bool} : boolLe low' low = true → boolLe high high' = true →
      Contained (bool low high) (bool low' high')

/-- The order of the lattice is containment. -/
theorem atMost_iff_contained {a b : Interval} :
    (lattice size).atMost a b = true ↔ Contained a b := by
  rw [atMost_iff]
  constructor
  · intro inside
    cases a with
    | bottom => exact .bottom b
    | top =>
      cases b with
      | top => exact .top top
      | bottom | int _ _ | bool _ _ => cases inside
    | int low high =>
      cases b with
      | top => exact .top _
      | int low' high' =>
        rw [contained_int] at inside
        exact .int inside.1 inside.2
      | bottom | bool _ _ => cases inside
    | bool low high =>
      cases b with
      | top => exact .top _
      | bool low' high' =>
        rw [contained, Bool.and_eq_true] at inside
        exact .bool inside.1 inside.2
      | bottom | int _ _ => cases inside
  · intro inside
    cases inside with
    | bottom b => rfl
    | top a => cases a <;> rfl
    | int down up => exact contained_int.mpr ⟨down, up⟩
    | bool down up => simp [contained, down, up]

theorem Contained.refl (a : Interval) : Contained a a := by
  cases a with
  | bottom => exact .bottom _
  | top => exact .top _
  | int low high => exact .int (Bound.le_refl low) (Bound.le_refl high)
  | bool low high => exact .bool (by cases low <;> rfl) (by cases high <;> rfl)

theorem boolLe_trans {a b c : Bool} : boolLe a b = true → boolLe b c = true → boolLe a c = true := by
  revert a b c
  decide

theorem boolLe_antisymm {a b : Bool} : boolLe a b = true → boolLe b a = true → a = b := by
  revert a b
  decide

theorem boolMin_le (a b : Bool) : boolLe (boolMin a b) a = true ∧ boolLe (boolMin a b) b = true := by
  revert a b
  decide

theorem le_boolMax (a b : Bool) : boolLe a (boolMax a b) = true ∧ boolLe b (boolMax a b) = true := by
  revert a b
  decide

theorem le_boolMin {a b c : Bool} :
    boolLe c a = true → boolLe c b = true → boolLe c (boolMin a b) = true := by
  revert a b c
  decide

theorem boolMax_le {a b c : Bool} :
    boolLe a c = true → boolLe b c = true → boolLe (boolMax a b) c = true := by
  revert a b c
  decide

theorem Contained.trans {a b c : Interval} (first : Contained a b) (second : Contained b c) :
    Contained a c := by
  cases first with
  | bottom => exact .bottom c
  | top =>
    cases second
    exact .top a
  | int down up =>
    cases second with
    | top => exact .top _
    | int down' up' => exact .int (Bound.le_trans down' down) (Bound.le_trans up up')
  | bool down up =>
    cases second with
    | top => exact .top _
    | bool down' up' => exact .bool (boolLe_trans down' down) (boolLe_trans up up')

theorem Contained.antisymm {a b : Interval} (left : Contained a b) (right : Contained b a) :
    a = b := by
  cases left with
  | bottom =>
    cases right
    rfl
  | top =>
    cases right
    rfl
  | int down up =>
    cases right with
    | int down' up' => rw [Bound.le_antisymm down' down, Bound.le_antisymm up up']
  | bool down up =>
    cases right with
    | bool down' up' => rw [boolLe_antisymm down' down, boolLe_antisymm up up']

/-- Every interval is contained in its join with another. -/
theorem contained_join_right (a b : Interval) : Contained b (a.join b) := by
  cases a with
  | bottom => exact .refl b
  | top => cases b <;> first | exact .bottom _ | exact .top _
  | int low high =>
    cases b with
    | bottom => exact .bottom _
    | bool _ _ | top => exact .top _
    | int low' high' => exact .int (Bound.min_le_right low low') (Bound.le_max_right high high')
  | bool low high =>
    cases b with
    | bottom => exact .bottom _
    | int _ _ | top => exact .top _
    | bool low' high' => exact .bool (boolMin_le low low').2 (le_boolMax high high').2

/-- What contains both sides contains their join. -/
theorem Contained.join {a b c : Interval} (left : Contained a c) (right : Contained b c) :
    Contained (a.join b) c := by
  cases left with
  | bottom => exact right
  | top => exact .top _
  | int down up =>
    cases right with
    | bottom => exact .int down up
    | int down' up' => exact .int (Bound.le_min down down') (Bound.max_le up up')
  | bool down up =>
    cases right with
    | bottom => exact .bool down up
    | bool down' up' => exact .bool (le_boolMin down down') (boolMax_le up up')

theorem joinLaws_lattice (size : IntervalSize) : (lattice size).JoinLaws where
  bottom_le := fun a => atMost_iff_contained.mpr (.bottom a)
  trans := by
    intro a b c
    rw [atMost_iff_contained, atMost_iff_contained, atMost_iff_contained]
    exact Contained.trans
  antisymm := by
    intro a b
    rw [atMost_iff_contained, atMost_iff_contained]
    exact Contained.antisymm
  le_join_left := atMost_join_left
  le_join_right := fun a b => atMost_iff_contained.mpr (contained_join_right a b)
  join_le := by
    intro a b c
    rw [atMost_iff_contained, atMost_iff_contained, atMost_iff_contained]
    exact Contained.join

/-! ## Meets -/

/-- Ranges with ends further out contain more. -/
theorem contained_range {low high low' high' : Bound} (down : low' ≤ low) (up : high ≤ high') :
    Contained (range low high) (range low' high') := by
  -- Ends further out are in order when these are; a range whose ends are not is empty.
  by_cases inOrder : low ≤ high
  · rw [range_eq_int inOrder, range_eq_int (Bound.le_trans down (Bound.le_trans inOrder up))]
    exact .int down up
  · rw [range_eq_bottom inOrder]
    exact .bottom _

/-- Ranges of booleans are those in order. -/
theorem boolRange_eq (low high : Bool) :
    boolRange low high = if boolLe low high = true then bool low high else bottom := by
  cases low <;> cases high <;> rfl

theorem contained_boolRange {low high low' high' : Bool} (down : boolLe low' low = true)
    (up : boolLe high high' = true) : Contained (boolRange low high) (boolRange low' high') := by
  rw [boolRange_eq, boolRange_eq]
  split
  · next inOrder =>
    rw [if_pos (boolLe_trans down (boolLe_trans inOrder up))]
    exact .bool down up
  · exact .bottom _

/-- A range lies between its ends. -/
theorem range_contained (low high : Bound) : Contained (range low high) (int low high) := by
  by_cases inOrder : low ≤ high
  · rw [range_eq_int inOrder]
    exact .refl _
  · rw [range_eq_bottom inOrder]
    exact .bottom _

theorem boolRange_contained (low high : Bool) : Contained (boolRange low high) (bool low high) := by
  rw [boolRange_eq]
  split
  · exact .refl _
  · exact .bottom _

theorem contained_meet_left (a b : Interval) : Contained (a.meet b) a := by
  cases a with
  | bottom => cases b <;> exact .bottom _
  | top => exact .top _
  | int low high =>
    cases b with
    | top => exact .refl _
    | bottom | bool _ _ => exact .bottom _
    | int low' high' =>
      exact (range_contained _ _).trans
        (.int (Bound.le_max_left low low') (Bound.min_le_left high high'))
  | bool low high =>
    cases b with
    | top => exact .refl _
    | bottom | int _ _ => exact .bottom _
    | bool low' high' =>
      exact (boolRange_contained _ _).trans (.bool (le_boolMax low low').1 (boolMin_le high high').1)

theorem contained_meet_right (a b : Interval) : Contained (a.meet b) b := by
  cases a with
  | bottom => cases b <;> exact .bottom _
  | top => exact .refl b
  | int low high =>
    cases b with
    | top => exact .top _
    | bottom | bool _ _ => exact .bottom _
    | int low' high' =>
      exact (range_contained _ _).trans
        (.int (Bound.le_max_right low low') (Bound.min_le_right high high'))
  | bool low high =>
    cases b with
    | top => exact .top _
    | bottom | int _ _ => exact .bottom _
    | bool low' high' =>
      exact (boolRange_contained _ _).trans (.bool (le_boolMax low low').2 (boolMin_le high high').2)

/-- Meets are monotone. -/
theorem Contained.meet {a b c d : Interval} (left : Contained a b) (right : Contained c d) :
    Contained (a.meet c) (b.meet d) := by
  cases left with
  | bottom => cases c <;> exact .bottom _
  -- With `top` on the larger side the meet is its other side, so one projection is enough.
  | top => exact (contained_meet_right a c).trans right
  | int down up =>
    cases right with
    | bottom | bool _ _ => exact .bottom _
    | top => exact (contained_meet_left _ c).trans (.int down up)
    | int down' up' =>
      refine contained_range ?_ ?_
      · exact Bound.max_le (Bound.le_trans down (Bound.le_max_left _ _))
          (Bound.le_trans down' (Bound.le_max_right _ _))
      · exact Bound.le_min (Bound.le_trans (Bound.min_le_left _ _) up)
          (Bound.le_trans (Bound.min_le_right _ _) up')
  | bool down up =>
    cases right with
    | bottom | int _ _ => exact .bottom _
    | top => exact (contained_meet_left _ c).trans (.bool down up)
    | bool down' up' =>
      refine contained_boolRange ?_ ?_
      · exact boolMax_le (boolLe_trans down (le_boolMax _ _).1) (boolLe_trans down' (le_boolMax _ _).2)
      · exact le_boolMin (boolLe_trans (boolMin_le _ _).1 up) (boolLe_trans (boolMin_le _ _).2 up')

theorem meetLaws_lattice (size : IntervalSize) : (lattice size).MeetLaws where
  meet_le_left := fun a b => atMost_iff_contained.mpr (contained_meet_left a b)
  meet_le_meet := by
    intro a b c d
    rw [atMost_iff_contained, atMost_iff_contained, atMost_iff_contained]
    exact Contained.meet

/-! ## Bringing into the size -/

/-- A low end is cut at the size, or infinite when it is below the size. -/
theorem normalizeLow_eq (n : Int64) (low : Bound) :
    normalizeLow n low = if .finite (-n) ≤ low then low.min (.finite n) else .negInf := by
  unfold normalizeLow Bound.min
  by_cases above : .finite (-n) ≤ low
  · rw [if_neg (Bound.not_lt above), if_pos above]
    by_cases within : low ≤ .finite n
    · rw [if_neg (Bound.not_lt within), if_pos within]
    · rw [if_pos (show .finite n < low from within), if_neg within]
  · rw [if_pos (show low < .finite (-n) from above), if_neg above]

/-- A high end is cut at the size, or infinite when it is above the size. -/
theorem normalizeHigh_eq (n : Int64) (high : Bound) :
    normalizeHigh n high = if high ≤ .finite n then (Bound.finite (-n)).max high else .posInf := by
  unfold normalizeHigh Bound.max
  by_cases below : high ≤ .finite n
  · rw [if_neg (Bound.not_lt below), if_pos below]
    by_cases within : .finite (-n) ≤ high
    · rw [if_neg (Bound.not_lt within), if_pos within]
    · rw [if_pos (show high < .finite (-n) from within), if_neg within]
  · rw [if_pos (show .finite n < high from below), if_neg below]

theorem normalizeLow_le_normalizeLow (n : Int64) {low low' : Bound} (down : low' ≤ low) :
    normalizeLow n low' ≤ normalizeLow n low := by
  -- The smaller end decides: below the size it becomes infinite, and otherwise both are cut.
  rw [normalizeLow_eq, normalizeLow_eq]
  split
  · next above =>
    rw [if_pos (Bound.le_trans above down)]
    exact Bound.le_min (Bound.le_trans (Bound.min_le_left _ _) down) (Bound.min_le_right _ _)
  · exact Bound.negInf_le _

theorem normalizeHigh_le_normalizeHigh (n : Int64) {high high' : Bound} (up : high ≤ high') :
    normalizeHigh n high ≤ normalizeHigh n high' := by
  rw [normalizeHigh_eq, normalizeHigh_eq]
  by_cases below : high' ≤ .finite n
  · rw [if_pos below, if_pos (Bound.le_trans up below)]
    exact Bound.max_le (Bound.le_max_left _ _) (Bound.le_trans up (Bound.le_max_right _ _))
  · rw [if_neg below]
    exact Bound.le_posInf _

/-- Bringing into the size is monotone. -/
theorem Contained.normalize {a b : Interval} (inside : Contained a b) (size : IntervalSize) :
    Contained (normalize size a) (normalize size b) := by
  cases inside with
  | bottom => exact .bottom _
  | top => exact .top _
  | int down up =>
    exact contained_range (normalizeLow_le_normalizeLow _ down) (normalizeHigh_le_normalizeHigh _ up)
  | bool down up => exact .bool down up

end Dataflow.Interval
