import Dataflow.Proofs.Interval.Marks
import Dataflow.Proofs.Interval.Transfers

/-!
# Comparisons of two variables narrow best

Assuming `y < x`, or another order comparison of two variables, cuts the interval of each by the bounds of
the other, moved by one when the comparison is strict, and brings the new ends into the size. The answer is
the best that intervals of the size can give (`comparisons_narrow_best`).

All comparisons are of the form `a + d ≤ b` with `d` zero or one, for the two variables in one order or
the other. `Limits` says where that cuts the two sides, in marks. At the edge of the size a moved end is
cut back, and then its own side may look feasible although it is not; the other side tells
(`Limits.proper_iff`, which is where the size has to be at least one). The new intervals are least because
each of their ends is pinned by a number (`leastWith_range`).
-/

set_option autoImplicit false

namespace Dataflow

/-- What a comparison says of two integers. -/
def CompareOp.Relates : CompareOp → Int → Int → Prop
  | lt, a, b => a < b
  | gt, a, b => b < a
  | le, a, b => a ≤ b
  | ge, a, b => b ≤ a

/-- A comparison of words is one of their values. -/
theorem CompareOp.holds_iff_relates {op : CompareOp} {v w : Int64} :
    op.holds v w = true ↔ op.Relates v.toInt w.toInt := by
  cases op with
  | lt | gt => exact decide_eq_true_iff.trans Int64.lt_iff_toInt_lt
  | le | ge => exact decide_eq_true_iff.trans Int64.le_iff_toInt_le

namespace Interval

open Concrete Analysis

/-! ## Best answers -/

section Statements

variable {κ : Type}

/-- An interval is the least of a size that has all numbers with a property. -/
structure LeastWith (size : IntervalSize) (has : Interval → κ → Prop) (P : κ → Prop) (c : Interval) :
    Prop where
  bounded : Bounded size c
  complete : ∀ i, P i → has c i
  least : ∀ b, Bounded size b → (∀ i, P i → has b i) → (lattice size).atMost c b = true

/-- An answer to the assumption that the numbers of two variables compare is the best one of a size:
there is none exactly when no two numbers of their intervals compare, and otherwise each variable has the
least interval with its numbers that compare with some number of the other. -/
structure NarrowsBest (size : IntervalSize) (has : Interval → κ → Prop) (compares : κ → κ → Prop)
    (y x : String) (a b : Interval) (env : Env Interval) (answer : Option (Env Interval)) : Prop where
  none_iff : answer = none ↔ ∀ i j, has a i → has b j → ¬ compares i j
  left : ∀ refined, answer = some refined → ∃ c, refined.get? y = some c ∧
    LeastWith size has (fun i => has a i ∧ ∃ j, has b j ∧ compares i j) c
  right : ∀ refined, answer = some refined → ∃ c, refined.get? x = some c ∧
    LeastWith size has (fun j => has b j ∧ ∃ i, has a i ∧ compares i j) c
  others : ∀ refined, answer = some refined → ∀ name, name ≠ y → name ≠ x →
    refined.get? name = env.get? name

/-- Numbers by which intervals are read: an interval has a number when it has its value, and all integers
up to two beyond the size are values. -/
structure Reading (size : IntervalSize) (has : Interval → κ → Prop) (value : κ → Int) : Prop where
  has_iff : ∀ {a : Interval} {i : κ}, has a i ↔ a.Has (value i)
  near : ∀ k : Int, -(size.toNat + 2) ≤ k → k ≤ size.toNat + 2 → ∃ i, value i = k

end Statements

/-- All integers. -/
theorem reading_integers (size : IntervalSize) : Reading size Has id where
  has_iff := Iff.rfl
  near := fun k _ _ => ⟨k, rfl⟩

/-- The words. -/
theorem reading_words (size : IntervalSize) :
    Reading size (fun a w => Covers a (.int w)) Int64.toInt where
  has_iff := covers_int_iff
  near := by
    intro k low high
    have small : size.toNat < 2 ^ 32 := UInt32.toNat_lt size
    refine ⟨Int64.ofInt k, Checked.toInt_ofInt ?_ ?_⟩
    · unfold Checked.least
      omega
    · unfold Checked.greatest
      omega

/-! ## The ends that a comparison gives -/

/-- The ends that `a + d ≤ b` gives to both sides when `a` is from `low` on and `b` is up to `high`: the
first side ends at `above` and the second begins at `below`. Infinite ends stay, and what is moved out of
the size is cut at its edge. -/
structure Limits (size : IntervalSize) (d : Int) (low high below above : Bound) : Prop where
  nonneg : 0 ≤ d
  small : d ≤ 1
  below_end : below.LowEnd size
  above_end : above.HighEnd size
  below_infinite : low.mark size = -(size.toNat + 2) → below.mark size = -(size.toNat + 2)
  below_finite : low.mark size ≠ -(size.toNat + 2) →
    below.mark size = min (low.mark size + d) size.toNat
  above_infinite : high.mark size = size.toNat + 2 → above.mark size = size.toNat + 2
  above_finite : high.mark size ≠ size.toNat + 2 →
    above.mark size = max (-(size.toNat : Int)) (high.mark size - d)

variable {size : IntervalSize} {low high : Bound}

/-- The ends for integers that are some step apart. -/
theorem limits_of_shift (up down : Int64) (least : 0 ≤ up.toInt) (most : up.toInt ≤ 1)
    (opposite : down.toInt = -up.toInt) (lowEnd : low.LowEnd size) (highEnd : high.HighEnd size) :
    Limits size up.toInt low high (normalizeLow size.word (low.shift up))
      (normalizeHigh size.word (high.shift down)) := by
  obtain ⟨belowInfinite, belowFinite⟩ := mark_normalizeLow_shift lowEnd least most
  obtain ⟨aboveInfinite, aboveFinite⟩ :=
    mark_normalizeHigh_shift highEnd (d := down) (by omega) (by omega)
  rw [opposite] at aboveFinite
  exact ⟨least, most, within_normalizeLow size _, within_normalizeHigh size _, belowInfinite,
    belowFinite, aboveInfinite, aboveFinite⟩

/-- The ends for integers that may be equal. -/
theorem limits_zero (lowEnd : low.LowEnd size) (highEnd : high.HighEnd size) :
    Limits size 0 low high (normalizeLow size.word low) (normalizeHigh size.word high) := by
  have limits := limits_of_shift 0 0 le_rfl zero_le_one rfl lowEnd highEnd
  rw [Bound.shift_zero, Bound.shift_zero] at limits
  exact limits

/-- The ends for integers of which the second is greater. -/
theorem limits_one (lowEnd : low.LowEnd size) (highEnd : high.HighEnd size) :
    Limits size 1 low high (normalizeLow size.word (low.shift 1))
      (normalizeHigh size.word (high.shift (-1))) :=
  limits_of_shift 1 (-1) zero_le_one le_rfl rfl lowEnd highEnd

/-! ## Least intervals -/

section Numbers

variable {κ : Type} {has : Interval → κ → Prop} {value : κ → Int} {d : Int}
  {low' high' below above : Bound}

/-- A number of an interval of a size, by its marks. -/
theorem Reading.has_int_iff (reading : Reading size has value)
    (inSize : (int low high).InSize size) {i : κ} :
    has (int low high) i ↔
      (low.mark size = -(size.toNat + 2) ∨ low.mark size ≤ value i) ∧
      (high.mark size = size.toNat + 2 ∨ value i ≤ high.mark size) :=
  reading.has_iff.trans (Interval.has_int_iff inSize)

/-- Ends of a size with a number between them are in order. -/
theorem Reading.ordered_of_has (reading : Reading size has value) (lowEnd : low.LowEnd size)
    (highEnd : high.HighEnd size) {i : κ} (inside : has (int low high) i) : low ≤ high := by
  have ends := (reading.has_int_iff ⟨lowEnd, highEnd⟩).mp inside
  have lowMark := lowEnd.mark_range
  have highMark := highEnd.mark_range
  rw [lowEnd.fits.le_iff_mark_le highEnd.fits]
  omega

/-- A low end is pinned by an integer when no greater low end of the size is at most the integer. -/
theorem lowEnd_le_of_pin {first : Bound} {k : Int} (lowEnd : low.LowEnd size)
    (firstEnd : first.LowEnd size) (pinned : k < -(size.toNat : Int) ∨ min k size.toNat ≤ low.mark size)
    (atMost : first.mark size = -(size.toNat + 2) ∨ first.mark size ≤ k) : first ≤ low := by
  have lowMark := lowEnd.mark_range
  have firstMark := firstEnd.mark_range
  rw [firstEnd.fits.le_iff_mark_le lowEnd.fits]
  omega

/-- A high end is pinned by an integer when no lesser high end of the size is at least the integer. -/
theorem highEnd_le_of_pin {last : Bound} {k : Int} (highEnd : high.HighEnd size)
    (lastEnd : last.HighEnd size)
    (pinned : (size.toNat : Int) < k ∨ high.mark size ≤ max (-(size.toNat : Int)) k)
    (atLeast : last.mark size = size.toNat + 2 ∨ k ≤ last.mark size) : high ≤ last := by
  have highMark := highEnd.mark_range
  have lastMark := lastEnd.mark_range
  rw [highEnd.fits.le_iff_mark_le lastEnd.fits]
  omega

/-- **A range is the least interval with given numbers** when it has them all and each of its ends is
pinned by one of them. -/
theorem leastWith_range (reading : Reading size has value) {P : κ → Prop} (lowEnd : low.LowEnd size)
    (highEnd : high.HighEnd size) (complete : ∀ i, P i → has (int low high) i)
    (lowPin : ∃ i, P i ∧ (value i < -(size.toNat : Int) ∨ min (value i) size.toNat ≤ low.mark size))
    (highPin : ∃ i, P i ∧
      ((size.toNat : Int) < value i ∨ high.mark size ≤ max (-(size.toNat : Int)) (value i))) :
    LeastWith size has P (range low high) := by
  obtain ⟨i, inside, pinned⟩ := lowPin
  obtain ⟨j, inside', pinned'⟩ := highPin
  have ordered : low ≤ high := reading.ordered_of_has lowEnd highEnd (complete i inside)
  rw [range_eq_int ordered]
  refine ⟨⟨ordered, lowEnd, highEnd⟩, complete, ?_⟩
  intro b bounded all
  rw [atMost_iff_contained]
  cases b with
  | bottom | bool _ _ => exact (reading.has_iff.mp (all i inside)).elim
  | top => exact .top _
  | int first last =>
    have atMost := ((reading.has_int_iff bounded.inSize).mp (all i inside)).1
    have atLeast := ((reading.has_int_iff bounded.inSize).mp (all j inside')).2
    exact .int (lowEnd_le_of_pin lowEnd bounded.lowEnd pinned atMost)
      (highEnd_le_of_pin highEnd bounded.highEnd pinned' atLeast)

/-! ## Numbers that compare -/

/-- An interval has a number at the mark of its low end. -/
theorem Reading.exists_low (reading : Reading size has value) (bounded : Bounded size (int low high)) :
    ∃ i, has (int low high) i ∧ value i = low.mark size := by
  have lowMark := bounded.lowEnd.mark_range
  have ordered := bounded.mark_le
  obtain ⟨i, same⟩ := reading.near (low.mark size) (by omega) (by omega)
  refine ⟨i, (reading.has_int_iff bounded.inSize).mpr ?_, same⟩
  omega

/-- An interval has a number at the mark of its high end. -/
theorem Reading.exists_high (reading : Reading size has value) (bounded : Bounded size (int low high)) :
    ∃ i, has (int low high) i ∧ value i = high.mark size := by
  have highMark := bounded.highEnd.mark_range
  have ordered := bounded.mark_le
  obtain ⟨i, same⟩ := reading.near (high.mark size) (by omega) (by omega)
  refine ⟨i, (reading.has_int_iff bounded.inSize).mpr ?_, same⟩
  omega

/-- Numbers of two intervals compare exactly when the marks at the outer ends do. -/
theorem Reading.exists_pair_iff (reading : Reading size has value) (nonneg : 0 ≤ d) (small : d ≤ 1)
    (lower : Bounded size (int low high)) (upper : Bounded size (int low' high')) :
    (∃ i j, has (int low high) i ∧ has (int low' high') j ∧ value i + d ≤ value j) ↔
      low.mark size + d ≤ high'.mark size := by
  have lowMark := lower.lowEnd.mark_range
  have highMark := upper.highEnd.mark_range
  constructor
  · rintro ⟨i, j, inLower, inUpper, apart⟩
    have first := ((reading.has_int_iff lower.inSize).mp inLower).1
    have last := ((reading.has_int_iff upper.inSize).mp inUpper).2
    omega
  · intro apart
    obtain ⟨i, inLower, first⟩ := reading.exists_low lower
    obtain ⟨j, inUpper, last⟩ := reading.exists_high upper
    exact ⟨i, j, inLower, inUpper, by omega⟩

/-- Neither side is left without values exactly when the marks at the outer ends compare. One side
alone does not tell: at the edge of the size its new end may be cut back into the interval. -/
theorem Limits.proper_iff (sized : 1 ≤ size.toNat) (limits : Limits size d low high' below above)
    (lower : Bounded size (int low high)) (upper : Bounded size (int low' high')) :
    low ≤ high.min above ∧ low'.max below ≤ high' ↔ low.mark size + d ≤ high'.mark size := by
  obtain ⟨nonneg, small, belowEnd, aboveEnd, belowInfinite, belowFinite, aboveInfinite, aboveFinite⟩ :=
    limits
  have ordered := lower.mark_le
  have ordered' := upper.mark_le
  rw [lower.lowEnd.fits.le_iff_mark_le (lower.highEnd.min aboveEnd).fits,
    mark_min lower.highEnd.fits aboveEnd.fits,
    (upper.lowEnd.max belowEnd).fits.le_iff_mark_le upper.highEnd.fits,
    mark_max upper.lowEnd.fits belowEnd.fits]
  rcases lower.lowEnd.mark_range with infinite | ⟨least, most⟩
  · have below := belowInfinite infinite
    have aboveMark := aboveEnd.mark_range
    have highMark := upper.highEnd.mark_range
    omega
  · have below := belowFinite (by omega)
    rcases upper.highEnd.mark_range with infinite | ⟨least', most'⟩
    · have above := aboveInfinite infinite
      omega
    · have above := aboveFinite (by omega)
      omega

/-- **The first side of a comparison is narrowed best**, when any numbers compare. -/
theorem Limits.leastWith_below (limits : Limits size d low high' below above)
    (reading : Reading size has value) (lower : Bounded size (int low high))
    (upper : Bounded size (int low' high')) (apart : low.mark size + d ≤ high'.mark size) :
    LeastWith size has
      (fun i => has (int low high) i ∧ ∃ j, has (int low' high') j ∧ value i + d ≤ value j)
      (range low (high.min above)) := by
  obtain ⟨nonneg, small, -, aboveEnd, -, -, aboveInfinite, aboveFinite⟩ := limits
  have newMark := mark_min lower.highEnd.fits aboveEnd.fits
  have ordered := lower.mark_le
  have highMark := lower.highEnd.mark_range
  obtain ⟨last, inUpper, greatest⟩ := reading.exists_high upper
  apply leastWith_range reading lower.lowEnd (lower.highEnd.min aboveEnd)
  · rintro i ⟨inside, j, inside', compares⟩
    have ends := (reading.has_int_iff lower.inSize).mp inside
    have last' := ((reading.has_int_iff upper.inSize).mp inside').2
    refine (reading.has_int_iff ⟨lower.lowEnd, lower.highEnd.min aboveEnd⟩).mpr ⟨ends.1, ?_⟩
    omega
  · -- The low end stays: its number compares with the greatest of the other side.
    obtain ⟨i, inLower, same⟩ := reading.exists_low lower
    refine ⟨i, ⟨inLower, last, inUpper, by omega⟩, Or.inr ?_⟩
    rw [same]
    exact min_le_left _ _
  · -- The greatest number that compares. When it is below the size, the end is cut.
    have range := upper.highEnd.mark_range
    obtain ⟨i, same⟩ := reading.near (min (high.mark size) (high'.mark size - d)) (by omega) (by omega)
    refine ⟨i, ⟨(reading.has_int_iff lower.inSize).mpr ⟨?_, ?_⟩, last, inUpper, ?_⟩, ?_⟩
    all_goals omega

/-- **The second side of a comparison is narrowed best**, when any numbers compare. -/
theorem Limits.leastWith_above (limits : Limits size d low high' below above)
    (reading : Reading size has value) (lower : Bounded size (int low high))
    (upper : Bounded size (int low' high')) (apart : low.mark size + d ≤ high'.mark size) :
    LeastWith size has
      (fun j => has (int low' high') j ∧ ∃ i, has (int low high) i ∧ value i + d ≤ value j)
      (range (low'.max below) high') := by
  obtain ⟨nonneg, small, belowEnd, -, belowInfinite, belowFinite, -, -⟩ := limits
  have newMark := mark_max upper.lowEnd.fits belowEnd.fits
  have ordered := upper.mark_le
  have lowMark := upper.lowEnd.mark_range
  obtain ⟨first, inLower, least⟩ := reading.exists_low lower
  apply leastWith_range reading (upper.lowEnd.max belowEnd) upper.highEnd
  · rintro j ⟨inside, i, inside', compares⟩
    have ends := (reading.has_int_iff upper.inSize).mp inside
    have first' := ((reading.has_int_iff lower.inSize).mp inside').1
    refine (reading.has_int_iff ⟨upper.lowEnd.max belowEnd, upper.highEnd⟩).mpr ⟨?_, ends.2⟩
    omega
  · -- The least number that compares. When it is above the size, the end is cut.
    have range := lower.lowEnd.mark_range
    obtain ⟨j, same⟩ := reading.near (max (low'.mark size) (low.mark size + d)) (by omega) (by omega)
    refine ⟨j, ⟨(reading.has_int_iff upper.inSize).mpr ⟨?_, ?_⟩, first, inLower, ?_⟩, ?_⟩
    all_goals omega
  · -- The high end stays: its number compares with the least of the other side.
    obtain ⟨j, inUpper, same⟩ := reading.exists_high upper
    refine ⟨j, ⟨inUpper, first, inLower, by omega⟩, Or.inr ?_⟩
    rw [same]
    exact le_max_right _ _

end Numbers

/-! ## The answer of the analysis -/

/-- An answer binds two names to two intervals, unless one of these is `bottom`, and leaves all other
names. -/
structure BindsBoth (y x : String) (a b : Interval) (env : Env Interval)
    (answer : Option (Env Interval)) : Prop where
  none_iff : answer = none ↔ a = bottom ∨ b = bottom
  left : ∀ refined, answer = some refined → refined.get? y = some a
  right : ∀ refined, answer = some refined → refined.get? x = some b
  others : ∀ refined, answer = some refined → ∀ name, name ≠ y → name ≠ x →
    refined.get? name = env.get? name

variable {y x : String} {a b c e : Interval} {env : Env Interval} {answer : Option (Env Interval)}

theorem BindsBoth.symm (binds : BindsBoth y x a b env answer) : BindsBoth x y b a env answer where
  none_iff := binds.none_iff.trans or_comm
  left := binds.right
  right := binds.left
  others := fun refined found name first second => binds.others refined found name second first

/-- A refinement of two names by an interval each. -/
theorem bindsBoth_refine? (apart : y ≠ x) (left : env.get? y = some a) (right : env.get? x = some b) :
    BindsBoth y x (a.meet c) (b.meet e) env
      (env.refine? (lattice size) (NameMap.ofList [(y, c), (x, e)])) := by
  have bound := NameMap.get?_ofList_pair y x c e
  have first : (NameMap.ofList [(y, c), (x, e)]).get? y = some c := by
    rw [bound, if_neg apart, if_pos rfl]
  have second : (NameMap.ofList [(y, c), (x, e)]).get? x = some e := by
    rw [bound, if_pos rfl]
  have met : Env.narrowed (lattice size) (env.get? y) c = a.meet c := by
    rw [left]
    rfl
  have met' : Env.narrowed (lattice size) (env.get? x) e = b.meet e := by
    rw [right]
    rfl
  have result : ∀ refined, env.refine? (lattice size) (NameMap.ofList [(y, c), (x, e)]) = some refined →
      _ := fun refined found => ((Env.refine?_eq_some_iff (lattice size)).mp found).2
  refine .mk ?none ?left ?right ?others
  case none =>
    rw [Env.refine?_eq_none_iff]
    constructor
    · rintro ⟨name, value, found, empty⟩
      rw [bound] at found
      split at found
      · next here =>
        cases found
        exact Or.inr (met'.symm.trans (here ▸ empty))
      · split at found
        · next here =>
          cases found
          exact Or.inl (met.symm.trans (here ▸ empty))
        · cases found
    · rintro (empty | empty)
      · exact ⟨y, c, first, met.trans empty⟩
      · exact ⟨x, e, second, met'.trans empty⟩
  case left =>
    intro refined found
    have here := result refined found y
    rw [first] at here
    exact here.trans (congrArg some met)
  case right =>
    intro refined found
    have here := result refined found x
    rw [second] at here
    exact here.trans (congrArg some met')
  case others =>
    intro refined found name notFirst notSecond
    have here := result refined found name
    rw [bound, if_neg notSecond, if_neg notFirst] at here
    exact here

/-- Assuming that two variables compare refines both by what the bounds of the other leave. -/
theorem bindsBoth_assuming {ly hy lx hx : Bound} (apart : y ≠ x)
    (left : env.get? y = some (int ly hy)) (right : env.get? x = some (int lx hx)) (op : CompareOp) :
    BindsBoth y x ((int ly hy).meet (normalize size (comparedSides op ly hy lx hx).1))
      ((int lx hx).meet (normalize size (comparedSides op ly hy lx hx).2.1)) env
      (assuming size (.compare (.var y) op (.var x)) env) := by
  have said : (narrow size (.compare (.var y) op (.var x)) env).bindings =
      some (NameMap.ofList [(y, normalize size (comparedSides op ly hy lx hx).1),
        (x, normalize size (comparedSides op ly hy lx hx).2.1)]) := by
    simp only [narrow, conditionBindings, compareVariables, Env.lookup, left, right,
      Option.getD_some, bounds?, bind, List.map_cons, List.map_nil]
  rw [assuming, said, Option.bind_some]
  exact bindsBoth_refine? apart left right

/-- The meet with everything up to a bound. -/
theorem meet_normalize_below (size : IntervalSize) (low high bound : Bound) :
    (int low high).meet (normalize size (range .negInf bound)) =
      range low (high.min (normalizeHigh size.word bound)) := by
  have cut : normalizeLow size.word .negInf = .negInf := if_pos (Bound.not_finite_le_negInf _)
  have kept : low.max .negInf = low :=
    Bound.le_antisymm (Bound.max_le (Bound.le_refl low) (Bound.negInf_le low)) (Bound.le_max_left _ _)
  rw [range_eq_int (Bound.negInf_le bound), normalize, cut, range_eq_int (Bound.negInf_le _), meet,
    kept]

/-- The meet with everything from a bound on. -/
theorem meet_normalize_above (size : IntervalSize) (low high bound : Bound) :
    (int low high).meet (normalize size (range bound .posInf)) =
      range (low.max (normalizeLow size.word bound)) high := by
  have cut : normalizeHigh size.word .posInf = .posInf := if_pos (Bound.not_posInf_le_finite _)
  have kept : high.min .posInf = high :=
    Bound.le_antisymm (Bound.min_le_left _ _) (Bound.le_min (Bound.le_refl high) (Bound.le_posInf high))
  rw [range_eq_int (Bound.le_posInf bound), normalize, cut, range_eq_int (Bound.le_posInf _), meet,
    kept]

section Best

variable {κ : Type} {has : Interval → κ → Prop} {value : κ → Int} {compares : κ → κ → Prop} {d : Int}
  {low' high' below above : Bound}

theorem NarrowsBest.symm
    (best : NarrowsBest size has (fun i j => compares j i) x y b a env answer) :
    NarrowsBest size has compares y x a b env answer where
  none_iff := best.none_iff.trans
    ⟨fun never i j left right => never j i right left,
      fun never i j left right => never j i right left⟩
  left := best.right
  right := best.left
  others := fun refined found name first second => best.others refined found name second first

theorem range_eq_bottom_iff : range low high = bottom ↔ ¬ low ≤ high := by
  refine ⟨fun empty ordered => ?_, range_eq_bottom⟩
  rw [range_eq_int ordered] at empty
  cases empty

/-- **An answer that cuts both sides at the ends that a comparison gives is the best one.** -/
theorem Limits.narrowsBest (limits : Limits size d low high' below above) (sized : 1 ≤ size.toNat)
    (reading : Reading size has value) (lower : Bounded size (int low high))
    (upper : Bounded size (int low' high'))
    (spaced : ∀ i j, compares i j ↔ value i + d ≤ value j)
    (binds : BindsBoth y x (range low (high.min above)) (range (low'.max below) high') env answer) :
    NarrowsBest size has compares y x (int low high) (int low' high') env answer := by
  have proper := limits.proper_iff sized lower upper
  have pair := reading.exists_pair_iff limits.nonneg limits.small lower upper
  have none_iff : answer = none ↔ ¬ low.mark size + d ≤ high'.mark size := by
    rw [binds.none_iff, range_eq_bottom_iff, range_eq_bottom_iff, ← not_and_or, proper]
  have apart : ∀ refined, answer = some refined → low.mark size + d ≤ high'.mark size := by
    intro refined found
    by_contra crossed
    rw [none_iff.mpr crossed] at found
    cases found
  obtain rfl : compares = fun i j => value i + d ≤ value j := by
    funext i j
    exact propext (spaced i j)
  refine .mk ?none ?left ?right binds.others
  case none =>
    rw [none_iff, ← pair]
    simp only [not_exists, not_and]
  case left =>
    intro refined found
    exact ⟨_, binds.left refined found,
      limits.leastWith_below reading lower upper (apart refined found)⟩
  case right =>
    intro refined found
    exact ⟨_, binds.right refined found,
      limits.leastWith_above reading lower upper (apart refined found)⟩

/-- Assuming that two variables compare answers best, by any numbers that intervals are read by. -/
theorem Reading.narrowsBest_assuming {ly hy lx hx : Bound} (reading : Reading size has value)
    (sized : 1 ≤ size.toNat) (apart : y ≠ x) (left : env.get? y = some (int ly hy))
    (right : env.get? x = some (int lx hx)) (bounded : Bounded size (int ly hy))
    (bounded' : Bounded size (int lx hx)) {op : CompareOp}
    (relates : ∀ i j, compares i j ↔ op.Relates (value i) (value j)) :
    NarrowsBest size has compares y x (int ly hy) (int lx hx) env
      (assuming size (.compare (.var y) op (.var x)) env) := by
  have binds : BindsBoth y x _ _ env (assuming size (.compare (.var y) op (.var x)) env) :=
    bindsBoth_assuming apart left right op
  -- Greater than is less than with the sides exchanged.
  cases op <;> simp only [comparedSides, meet_normalize_below, meet_normalize_above] at binds
  case lt =>
    exact (limits_one bounded.lowEnd bounded'.highEnd).narrowsBest sized reading bounded bounded'
      relates binds
  case gt =>
    apply NarrowsBest.symm
    exact (limits_one bounded'.lowEnd bounded.highEnd).narrowsBest sized reading bounded' bounded
      (fun i j => relates j i) binds.symm
  case le =>
    apply (limits_zero bounded.lowEnd bounded'.highEnd).narrowsBest sized reading bounded bounded' _ binds
    intro i j
    rw [Int.add_zero]
    exact relates i j
  case ge =>
    apply NarrowsBest.symm
    apply (limits_zero bounded'.lowEnd bounded.highEnd).narrowsBest sized reading bounded' bounded _
      binds.symm
    intro i j
    rw [Int.add_zero]
    exact relates j i

end Best

/-- **An order comparison of two variables narrows both as much as the size allows.** For every size from
one on and two variables bound to intervals of the size: no environment is left exactly when no integers
of the two intervals compare; otherwise each variable is bound to the least interval of the size with all
its integers that compare with one of the other's, and all other names are bound as before. The integers
may be all of them or the words alone, which the intervals cover. -/
theorem comparisons_narrow_best (size : IntervalSize) (sized : 1 ≤ size.toNat) (env : Env Interval)
    (y x : String) (apart : y ≠ x) (ly hy lx hx : Bound) (left : env.get? y = some (int ly hy))
    (right : env.get? x = some (int lx hx)) (bounded : Bounded size (int ly hy))
    (bounded' : Bounded size (int lx hx)) (op : CompareOp) :
    NarrowsBest size Has op.Relates y x (int ly hy) (int lx hx) env
      (assuming size (.compare (.var y) op (.var x)) env) ∧
    NarrowsBest size (fun a w => Covers a (.int w)) (fun v w => op.holds v w = true) y x (int ly hy)
      (int lx hx) env (assuming size (.compare (.var y) op (.var x)) env) := by
  constructor
  · exact (reading_integers size).narrowsBest_assuming sized apart left right bounded bounded'
      fun _ _ => Iff.rfl
  · exact (reading_words size).narrowsBest_assuming sized apart left right bounded bounded'
      fun _ _ => CompareOp.holds_iff_relates

/-- With size zero both moved ends are cut back to zero, and `0 < 0` is not found impossible. -/
example : assuming 0 (.compare (.var "y") .lt (.var "x"))
    (NameMap.ofList [("y", constant 0), ("x", constant 0)]) =
      some (NameMap.ofList [("y", constant 0), ("x", constant 0)]) := by
  decide +kernel

/-- An environment at the lower edge of size three: `y` is from `-3` on, and `x` is up to `-3`. -/
def touching : Env Interval :=
  NameMap.ofList [("x", int .negInf (.finite (-3))), ("y", int (.finite (-3)) .posInf)]

/-- At the edge `y < x` is found impossible, though the new end of `y` alone is cut back to `-3`; and
`y <= x` leaves `-3` alone for both. -/
theorem touching_narrowed_best :
    assuming 3 (.compare (.var "y") .lt (.var "x")) touching = none ∧
    (∀ a b, (int (.finite (-3)) .posInf).Has a → (int .negInf (.finite (-3))).Has b → ¬ a < b) ∧
    assuming 3 (.compare (.var "y") .le (.var "x")) touching =
      some (NameMap.ofList [("x", constant (-3)), ("y", constant (-3))]) ∧
    LeastWith 3 Has
      (fun a => (int (.finite (-3)) .posInf).Has a ∧ ∃ b, (int .negInf (.finite (-3))).Has b ∧ a ≤ b)
      (constant (-3)) := by
  have bounded : Bounded 3 (int (.finite (-3)) .posInf) :=
    ⟨Bound.le_posInf _, Or.inr ⟨by decide, by decide⟩, Or.inl rfl⟩
  have bounded' : Bounded 3 (int .negInf (.finite (-3))) :=
    ⟨Bound.negInf_le _, Or.inl rfl, Or.inr ⟨by decide, by decide⟩⟩
  have best := comparisons_narrow_best 3 (by decide) touching "y" "x" (by decide) _ _ _ _ rfl rfl bounded
    bounded'
  have impossible : assuming 3 (.compare (.var "y") .lt (.var "x")) touching = none := by
    decide +kernel
  have narrowed : assuming 3 (.compare (.var "y") .le (.var "x")) touching =
      some (NameMap.ofList [("x", constant (-3)), ("y", constant (-3))]) := by
    decide +kernel
  refine ⟨impossible, (best .lt).1.none_iff.mp impossible, narrowed, ?_⟩
  obtain ⟨c, bound, least⟩ := (best .le).1.left _ narrowed
  cases bound
  exact least

end Interval

end Dataflow
