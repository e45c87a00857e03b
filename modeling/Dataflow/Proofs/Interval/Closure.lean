import Dataflow.Proofs.Interval.Marks
import Mathlib.Order.Closure

/-!
# Bringing into the size is a closure

Among the intervals in order, those of a size are the closed ones of a closure operator, and bringing an
interval into the size is that operator (`closure`). One end of an interval moves out to infinity and the
other one stops at the edge of the size, so the two ends have to be seen together: a low end is never
moved above a low end of the size that was below it (`Bound.LowEnd.le_normalizeLow`), and no high end
below one that was above it (`Bound.HighEnd.normalizeHigh_le`). That the result is never empty, and that
bringing into the size is monotone, idempotent and leaves the intervals of the size alone, are the laws
of closure operators (`normalize_is_closure`).
-/

set_option autoImplicit false

namespace Dataflow

variable {size : IntervalSize} {a b : Bound}

/-! ## Ends -/

/-- A bound within the size is between the edges of the size. -/
theorem Bound.Within.between (within : a.Within size) :
    .finite (-size.word) ≤ a ∧ a ≤ .finite size.word := by
  cases a with
  | negInf | posInf => exact within.elim
  | finite w =>
    rw [finite_le_finite, finite_le_finite, size.toInt_neg_word, size.toInt_word]
    exact within

/-- A low end of the size that is below a bound stays below it when the bound is brought into the size. -/
theorem Bound.LowEnd.le_normalizeLow (low : a.LowEnd size) (below : a ≤ b) :
    a ≤ Interval.normalizeLow size.word b := by
  rcases low with rfl | within
  · exact negInf_le _
  · -- A bound above a word of the size is not moved out to infinity, it is only cut.
    obtain ⟨above, inside⟩ := within.between
    rw [Interval.normalizeLow_eq, if_pos (le_trans above below)]
    exact le_min below inside

/-- A high end of the size that is above a bound stays above it when the bound is brought into the
size. -/
theorem Bound.HighEnd.normalizeHigh_le (high : b.HighEnd size) (below : a ≤ b) :
    Interval.normalizeHigh size.word a ≤ b := by
  rcases high with rfl | within
  · exact le_posInf _
  · obtain ⟨inside, under⟩ := within.between
    rw [Interval.normalizeHigh_eq, if_pos (le_trans below under)]
    exact max_le inside below

namespace Interval

/-! ## The closure operator -/

/-- The intervals in order, ordered by containment. -/
instance : PartialOrder {a : Interval // a.Ordered} where
  le a b := Contained a.1 b.1
  le_refl a := .refl a.1
  le_trans _ _ _ := Contained.trans
  le_antisymm _ _ left right := Subtype.ext (left.antisymm right)

/-- An interval in order is contained in what it becomes within the size. -/
theorem contained_normalize (size : IntervalSize) {a : Interval} (ordered : a.Ordered) :
    Contained a (normalize size a) := by
  cases a with
  | bottom | bool _ _ | top => exact .refl _
  | int low high =>
    have down := normalizeLow_le size.word low
    have up := le_normalizeHigh size.word high
    rw [normalize, range_eq_int (Bound.le_trans down (Bound.le_trans ordered up))]
    exact .int down up

/-- An interval of the size that contains an interval contains what this becomes within the size. -/
theorem Contained.normalize_le {a b : Interval} (inside : Contained a b) (bounded : Bounded size b) :
    Contained (Interval.normalize size a) b := by
  cases inside with
  | bottom => exact .bottom _
  | top => exact .top _
  | bool down up => exact .bool down up
  | int down up =>
    refine (range_contained _ _).trans (.int ?_ ?_)
    · exact bounded.lowEnd.le_normalizeLow down
    · exact bounded.highEnd.normalizeHigh_le up

/-- **Bringing into the size, as a closure operator**: its closed intervals are those of the size. -/
def closure (size : IntervalSize) : ClosureOperator {a : Interval // a.Ordered} :=
  .ofPred (fun a => ⟨normalize size a.1, ordered_normalize size a.2⟩) (fun a => Bounded size a.1)
    (fun a => contained_normalize size a.2)
    (fun a => ⟨ordered_normalize size a.2, inSize_normalize size a.1⟩)
    (fun _ _ inside bounded => Contained.normalize_le inside bounded)

/-- An interval is the least one of a size that contains another. -/
structure LeastAbove (size : IntervalSize) (a least : Interval) : Prop where
  bounded : Bounded size least
  above : (lattice size).atMost a least = true
  least : ∀ b, Bounded size b → (lattice size).atMost a b = true →
    (lattice size).atMost least b = true

theorem leastAbove_normalize (size : IntervalSize) {a : Interval} (ordered : a.Ordered) :
    LeastAbove size a (normalize size a) where
  bounded := ⟨ordered_normalize size ordered, inSize_normalize size a⟩
  above := atMost_iff_contained.mpr (contained_normalize size ordered)
  least := by
    intro b bounded inside
    rw [atMost_iff_contained] at inside ⊢
    exact inside.normalize_le bounded

/-- **Bringing an interval into the size gives the least interval of the size that contains it**, for
every size and every interval in order, whatever its ends. So it makes nothing empty, is idempotent and
monotone, and leaves the intervals of the size as they are. -/
theorem normalize_is_closure (size : IntervalSize) :
    (∀ a : Interval, a.Ordered → LeastAbove size a (normalize size a)) ∧
    (∀ a : Interval, a.Ordered → a ≠ bottom → normalize size a ≠ bottom) ∧
    (∀ a : Interval, a.Ordered → normalize size (normalize size a) = normalize size a) ∧
    (∀ a b : Interval, a.Ordered → b.Ordered → (lattice size).atMost a b = true →
      (lattice size).atMost (normalize size a) (normalize size b) = true) ∧
    (∀ a : Interval, Bounded size a → normalize size a = a) := by
  refine ⟨fun a => leastAbove_normalize size, ?_, ?_, ?_, ?_⟩
  · intro a ordered nonempty empty
    have above := contained_normalize size ordered
    rw [empty] at above
    exact nonempty (above.antisymm (.bottom a))
  · intro a ordered
    exact congrArg Subtype.val ((closure size).idempotent ⟨a, ordered⟩)
  · intro a b left right inside
    rw [atMost_iff_contained] at inside ⊢
    exact (closure size).monotone (show (⟨a, left⟩ : {a : Interval // a.Ordered}) ≤ ⟨b, right⟩ from inside)
  · intro a bounded
    have closed : (closure size).IsClosed ⟨a, bounded.ordered⟩ := bounded
    exact congrArg Subtype.val closed.closure_eq

/-- With size zero the upper infinity alone becomes the integers from zero up: its low end is cut at the
edge of the size and its high end stays. -/
theorem posInf_brought_into_zero :
    (int .posInf .posInf).Ordered ∧ int .posInf .posInf ≠ bottom ∧
    normalize 0 (int .posInf .posInf) = int (.finite 0) .posInf ∧
    LeastAbove 0 (int .posInf .posInf) (normalize 0 (int .posInf .posInf)) ∧
    normalize 0 (int .posInf .posInf) ≠ bottom := by
  have ordered : (int .posInf .posInf).Ordered := Bound.le_posInf _
  have nonempty : int .posInf .posInf ≠ bottom := Interval.noConfusion
  obtain ⟨least, kept, -⟩ := normalize_is_closure 0
  exact ⟨ordered, nonempty, by decide, least _ ordered, kept _ ordered nonempty⟩

end Interval

end Dataflow
