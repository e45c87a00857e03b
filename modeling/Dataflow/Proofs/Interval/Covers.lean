import Dataflow.Proofs.Interval.Closure
import Dataflow.Proofs.Interval.Laws

/-!
# The covers of intervals

The bounds of a size stand in a row: the lower infinity, the integers of the size, the upper infinity.
`Bound.Next` says that one bound comes right after another there, and `Adjacent` that one interval comes
from another by moving one end to the next bound outward, or by one of the steps at the ends of the
lattice. Both listings are compared with this relation (`mem_successors_iff`, `mem_predecessors_iff`), and
so is the order: two intervals of the size are adjacent exactly when one is strictly below the other and
no interval of the size is strictly between them (`directlyBelow_iff`).
-/

set_option autoImplicit false

namespace Dataflow

variable {size : IntervalSize}

/-! ## Words -/

namespace IntervalSize

/-- Below the upper edge of a size one can be added to a word. -/
theorem toInt_add_one {w : Int64} (below : w < size.word) : (w + 1).toInt = w.toInt + 1 := by
  have small : size.toNat < 2 ^ 32 := UInt32.toNat_lt size
  have least := Int64.le_toInt w
  rw [Int64.lt_iff_toInt_lt, toInt_word] at below
  rw [Int64.toInt_add]
  exact Int.bmod_eq_of_le (by simp; omega) (by simp; omega)

/-- Above the lower edge of a size one can be subtracted from a word. -/
theorem toInt_sub_one {w : Int64} (above : -size.word < w) : (w - 1).toInt = w.toInt - 1 := by
  have small : size.toNat < 2 ^ 32 := UInt32.toNat_lt size
  have greatest := Int64.toInt_lt w
  rw [Int64.lt_iff_toInt_lt, toInt_neg_word] at above
  rw [Int64.toInt_sub]
  exact Int.bmod_eq_of_le (by simp; omega) (by simp; omega)

/-- The words up to the size have their values. -/
theorem toInt_ofNat {i : Nat} (inside : i ≤ size.toNat) : (Int64.ofNat i).toInt = i := by
  have small : size.toNat < 2 ^ 32 := UInt32.toNat_lt size
  exact Int64.toInt_ofNat_of_lt (by omega)

/-- So do their negations. -/
theorem toInt_neg_ofNat {i : Nat} (inside : i ≤ size.toNat) : (-Int64.ofNat i).toInt = -i := by
  have small : size.toNat < 2 ^ 32 := UInt32.toNat_lt size
  rw [Int64.toInt_neg, toInt_ofNat inside]
  exact Int.bmod_eq_of_le (by omega) (by omega)

/-- The sums, differences and negations behind the covers of a size, under the conditions under which they
are taken, are all in the 64-bit range. -/
structure StepsFit (size : IntervalSize) : Prop where
  edge : Checked.neg size.word = some (-size.word)
  up : ∀ w : Int64, w < size.word → Checked.add w 1 = some (w + 1)
  down : ∀ w : Int64, -size.word < w → Checked.sub w 1 = some (w - 1)
  single : ∀ i < size.toNat, (Int64.ofNat (i + 1)).toInt = i + 1 ∧
    Checked.neg (Int64.ofNat (i + 1)) = some (-Int64.ofNat (i + 1))

theorem stepsFit (size : IntervalSize) : size.StepsFit where
  edge := by
    rw [Checked.neg, Checked.ofInt?_eq_some_iff, toInt_neg_word, toInt_word]
  up := by
    intro w below
    rw [Checked.add, Checked.ofInt?_eq_some_iff]
    exact toInt_add_one below
  down := by
    intro w above
    rw [Checked.sub, Checked.ofInt?_eq_some_iff]
    exact toInt_sub_one above
  single := by
    intro i inside
    rw [Checked.neg, Checked.ofInt?_eq_some_iff, toInt_neg_ofNat inside, toInt_ofNat inside]
    exact ⟨rfl, rfl⟩

end IntervalSize

/-! ## The row of bounds -/

namespace Bound

/-- A bound comes right after another in the row of a size. Integers follow each other by a sum that does
not leave the 64-bit range. -/
inductive Next (size : IntervalSize) : Bound → Bound → Prop
  | first : Next size negInf (finite (-size.word))
  | step {v w : Int64} : (finite v).Within size → (finite w).Within size → Checked.add v 1 = some w →
      Next size (finite v) (finite w)
  | last : Next size (finite size.word) posInf

variable {a b c : Bound}

theorem within_neg_word (size : IntervalSize) : (finite (-size.word)).Within size :=
  Interval.within_of_between (le_refl _) (Interval.neg_word_le_word size)

theorem within_word (size : IntervalSize) : (finite size.word).Within size :=
  Interval.within_of_between (Interval.neg_word_le_word size) (le_refl _)

/-- An integer follows another when it is greater by one. -/
theorem next_finite {v w : Int64} (first : (finite v).Within size) (second : (finite w).Within size)
    (value : w.toInt = v.toInt + 1) : Next size (finite v) (finite w) :=
  .step first second (Checked.ofInt?_eq_some_iff.mpr value)

theorem toInt_eq_of_add {v w : Int64} (sum : Checked.add v 1 = some w) : w.toInt = v.toInt + 1 :=
  Checked.ofInt?_eq_some_iff.mp sum

theorem Next.le (next : Next size a b) : a ≤ b := by
  cases next with
  | first => exact negInf_le _
  | last => exact le_posInf _
  | step _ _ sum =>
    rw [finite_le_finite, toInt_eq_of_add sum]
    omega

theorem Next.ne (next : Next size a b) : a ≠ b := by
  cases next with
  | first | last => exact Bound.noConfusion
  | step _ _ sum =>
    intro same
    have value := toInt_eq_of_add sum
    rw [finite.inj same] at value
    omega

/-- A bound before another in the row is a low end. -/
theorem Next.lowEnd (next : Next size a b) : a.LowEnd size := by
  cases next with
  | first => exact Or.inl rfl
  | step within _ _ => exact Or.inr within
  | last => exact Or.inr (within_word size)

/-- A bound after another in the row is a high end. -/
theorem Next.highEnd (next : Next size a b) : b.HighEnd size := by
  cases next with
  | first => exact Or.inr (within_neg_word size)
  | step _ within _ => exact Or.inr within
  | last => exact Or.inl rfl

/-- The integers of the size are between its edges. -/
theorem Fits.between {w : Int64} (fits : (finite w).Fits size) :
    finite (-size.word) ≤ finite w ∧ finite w ≤ finite size.word := by
  have within : (finite w).Within size := fits
  exact within.between

/-- **No bound of the size is between two bounds that follow each other.** -/
theorem Next.le_or_le (next : Next size a b) (fits : c.Fits size) : c ≤ a ∨ b ≤ c := by
  cases c with
  | negInf => exact Or.inl (negInf_le _)
  | posInf => exact Or.inr (le_posInf _)
  | finite u =>
    cases next with
    | first => exact Or.inr fits.between.1
    | last => exact Or.inl fits.between.2
    | step _ _ sum =>
      rw [finite_le_finite, finite_le_finite, toInt_eq_of_add sum]
      omega

/-- From a bound of the size up to a greater one, the row goes on. -/
theorem exists_next_le (left : a.Fits size) (right : b.Fits size) (below : ¬ b ≤ a) :
    ∃ c, Next size a c ∧ c ≤ b := by
  cases a with
  | posInf => exact absurd (le_posInf b) below
  | negInf =>
    refine ⟨_, .first, ?_⟩
    cases b with
    | negInf => exact absurd (negInf_le _) below
    | posInf => exact le_posInf _
    | finite w => exact right.between.1
  | finite v =>
    obtain ⟨least, most⟩ := left
    by_cases edge : v.toInt = size.toNat
    · -- Beyond the upper edge of the size there is only the infinity.
      have same : v = size.word := Int64.toInt_inj.mp (edge.trans size.toInt_word.symm)
      subst same
      refine ⟨_, .last, ?_⟩
      cases b with
      | negInf => exact absurd (negInf_le _) below
      | posInf => exact le_posInf _
      | finite w => exact absurd right.between.2 below
    · have inside : v < size.word := by
        rw [Int64.lt_iff_toInt_lt, size.toInt_word]
        omega
      have value := IntervalSize.toInt_add_one inside
      refine ⟨finite (v + 1), next_finite ⟨least, most⟩ ⟨by omega, by omega⟩ value, ?_⟩
      cases b with
      | negInf => exact absurd (negInf_le _) below
      | posInf => exact le_posInf _
      | finite w =>
        rw [finite_le_finite] at below ⊢
        omega

/-- From a bound of the size down to a lesser one, the row goes on. -/
theorem exists_le_next (left : a.Fits size) (right : b.Fits size) (below : ¬ b ≤ a) :
    ∃ c, a ≤ c ∧ Next size c b := by
  cases b with
  | negInf => exact absurd (negInf_le a) below
  | posInf =>
    refine ⟨_, ?_, .last⟩
    cases a with
    | negInf => exact negInf_le _
    | posInf => exact absurd (le_posInf _) below
    | finite v => exact left.between.2
  | finite w =>
    obtain ⟨least, most⟩ := right
    by_cases edge : w.toInt = -size.toNat
    · have same : w = -size.word := Int64.toInt_inj.mp (edge.trans size.toInt_neg_word.symm)
      subst same
      refine ⟨_, ?_, .first⟩
      cases a with
      | negInf => exact negInf_le _
      | posInf => exact absurd (le_posInf _) below
      | finite v => exact absurd left.between.1 below
    · have inside : -size.word < w := by
        rw [Int64.lt_iff_toInt_lt, size.toInt_neg_word]
        omega
      have value := IntervalSize.toInt_sub_one inside
      refine ⟨finite (w - 1), ?_, next_finite ⟨by omega, by omega⟩ ⟨least, most⟩ (by omega)⟩
      cases a with
      | negInf => exact negInf_le _
      | posInf => exact absurd (le_posInf _) below
      | finite v =>
        rw [finite_le_finite] at below ⊢
        omega

/-- A low end of the size that is finite comes after another bound. -/
theorem LowEnd.exists_next (low : b.LowEnd size) (finite : b ≠ negInf) : ∃ a, Next size a b := by
  have above : ¬ b ≤ negInf := fun below => finite (le_antisymm below (negInf_le b))
  have fits : negInf.Fits size := trivial
  obtain ⟨a, -, next⟩ := exists_le_next fits low.fits above
  exact ⟨a, next⟩

/-- A high end of the size that is finite comes before another bound. -/
theorem HighEnd.exists_next (high : a.HighEnd size) (finite : a ≠ posInf) : ∃ b, Next size a b := by
  have below : ¬ posInf ≤ a := fun above => finite (le_antisymm (le_posInf a) above)
  have fits : posInf.Fits size := trivial
  obtain ⟨b, next, -⟩ := exists_next_le high.fits fits below
  exact ⟨b, next⟩

end Bound

namespace Interval

open ValueLattice

variable {a b : Interval} {low high low' high' : Bound}

/-! ## Adjacent intervals -/

/-- An interval of a size is strictly below another, and no interval of the size is strictly between. -/
def DirectlyBelow (size : IntervalSize) (a b : Interval) : Prop :=
  (lattice size).below a b = true ∧
    ∀ c, Bounded size c → ¬ ((lattice size).below a c = true ∧ (lattice size).below c b = true)

/-- An interval comes from another by one step up: a single value from nothing, one end moved to the next
bound outward, both booleans from one, or everything from all integers or all booleans. -/
inductive Adjacent (size : IntervalSize) : Interval → Interval → Prop
  | integer {w : Int64} : (Bound.finite w).Within size →
      Adjacent size bottom (int (.finite w) (.finite w))
  | truth (value : Bool) : Adjacent size bottom (bool value value)
  | down {low' low high : Bound} : Bound.Next size low' low →
      Adjacent size (int low high) (int low' high)
  | up {low high high' : Bound} : Bound.Next size high high' →
      Adjacent size (int low high) (int low high')
  | either (value : Bool) : Adjacent size (bool value value) (bool false true)
  | anyInt : Adjacent size (int .negInf .posInf) top
  | anyBool : Adjacent size (bool false true) top

/-- A step up from an interval of the size stays in the size. -/
theorem Adjacent.bounded (adjacent : Adjacent size a b) (bounded : Bounded size a) :
    Bounded size b := by
  cases adjacent with
  | integer within => exact ⟨Bound.le_refl _, Or.inr within, Or.inr within⟩
  | truth value => exact ⟨by cases value <;> rfl, trivial⟩
  | down next => exact ⟨Bound.le_trans next.le bounded.ordered, next.lowEnd, bounded.highEnd⟩
  | up next => exact ⟨Bound.le_trans bounded.ordered next.le, bounded.lowEnd, next.highEnd⟩
  | either => exact ⟨rfl, trivial⟩
  | anyInt | anyBool => exact ⟨trivial, trivial⟩

theorem bool_contained_anyBool (low high : Bool) : Contained (bool low high) (bool false true) :=
  .bool rfl (by cases high <;> rfl)

/-- A step up from an interval makes it larger. -/
theorem Adjacent.contained (adjacent : Adjacent size a b) : Contained a b := by
  cases adjacent with
  | integer | truth => exact .bottom _
  | down next => exact .int next.le (Bound.le_refl _)
  | up next => exact .int (Bound.le_refl _) next.le
  | either value => exact bool_contained_anyBool value value
  | anyInt | anyBool => exact .top _

theorem Adjacent.ne (adjacent : Adjacent size a b) : a ≠ b := by
  cases adjacent with
  | integer | truth | anyInt | anyBool => exact Interval.noConfusion
  | down next =>
    intro same
    exact next.ne (int.inj same).1.symm
  | up next =>
    intro same
    exact next.ne (int.inj same).2
  | either value => cases value <;> decide

/-- An interval of booleans with a given boolean has that one alone or both. -/
theorem bool_eq_or_eq {value low high : Bool} : boolLe low value = true → boolLe value high = true →
    bool low high = bool value value ∨ bool low high = bool false true := by
  revert value low high
  decide

/-- Booleans in order are the same or both. -/
theorem bool_single_or_both {low high : Bool} :
    boolLe low high = true → low = high ∨ bool low high = bool false true := by
  revert low high
  decide

/-- Nothing is a step up to the bottom. -/
theorem Adjacent.ne_bottom (adjacent : Adjacent size a b) : b ≠ bottom := by
  cases adjacent <;> exact Interval.noConfusion

/-- **No interval of the size is between two adjacent ones.** -/
theorem Adjacent.eq_or_eq (adjacent : Adjacent size a b) {c : Interval} (bounded : Bounded size c)
    (left : Contained a c) (right : Contained c b) : c = a ∨ c = b := by
  cases adjacent with
  | integer within =>
    cases right with
    | bottom => exact Or.inl rfl
    | int down up =>
      -- Ends in order that are both squeezed to one integer are that integer.
      have ordered := bounded.ordered
      have low := Bound.le_antisymm (Bound.le_trans ordered up) down
      have high := Bound.le_antisymm up (Bound.le_trans down ordered)
      rw [low, high]
      exact Or.inr rfl
  | truth value =>
    cases right with
    | bottom => exact Or.inl rfl
    | bool down up =>
      have ordered := bounded.ordered
      have low := boolLe_antisymm (boolLe_trans ordered up) down
      have high := boolLe_antisymm up (boolLe_trans down ordered)
      rw [low, high]
      exact Or.inr rfl
  | down next =>
    cases left with
    | top => cases right
    | int down up =>
      cases right with
      | int down' up' =>
        rw [Bound.le_antisymm up' up]
        rcases next.le_or_le bounded.lowEnd.fits with here | there
        · rw [Bound.le_antisymm here down']
          exact Or.inr rfl
        · rw [Bound.le_antisymm down there]
          exact Or.inl rfl
  | up next =>
    cases left with
    | top => cases right
    | int down up =>
      cases right with
      | int down' up' =>
        rw [Bound.le_antisymm down down']
        rcases next.le_or_le bounded.highEnd.fits with here | there
        · rw [Bound.le_antisymm here up]
          exact Or.inl rfl
        · rw [Bound.le_antisymm up' there]
          exact Or.inr rfl
  | either value =>
    cases left with
    | top => cases right
    | bool down up => exact bool_eq_or_eq down up
  | anyInt =>
    cases left with
    | top => exact Or.inr rfl
    | int down up =>
      rw [Bound.le_antisymm down (Bound.negInf_le _), Bound.le_antisymm (Bound.le_posInf _) up]
      exact Or.inl rfl
  | anyBool =>
    cases left with
    | top => exact Or.inr rfl
    | bool down up => exact Or.inl (Contained.antisymm (bool_contained_anyBool _ _) (.bool down up))

/-- An interval of integers of the size has one of the size. -/
theorem Bounded.exists_integer (bounded : Bounded size (int low high)) :
    ∃ w, (Bound.finite w).Within size ∧ low ≤ .finite w ∧ .finite w ≤ high := by
  have lowEnd := bounded.lowEnd
  have highEnd := bounded.highEnd
  cases low with
  | posInf => exact (lowEnd.resolve_left Bound.noConfusion).elim
  | finite w => exact ⟨w, lowEnd.fits, Bound.le_refl _, bounded.ordered⟩
  | negInf =>
    cases high with
    | negInf => exact (highEnd.resolve_left Bound.noConfusion).elim
    | finite w => exact ⟨w, highEnd.fits, Bound.negInf_le _, Bound.le_refl _⟩
    | posInf =>
      have zero : (Bound.finite 0).Within size := ⟨by simp, by simp⟩
      exact ⟨0, zero, Bound.negInf_le _, Bound.le_posInf _⟩

/-- **Below an interval of the size there is a step towards it**: whatever it strictly contains in the size
has an adjacent interval that it still contains. -/
theorem exists_adjacent_contained (left : Bounded size a) (right : Bounded size b)
    (inside : Contained a b) (different : a ≠ b) : ∃ c, Adjacent size a c ∧ Contained c b := by
  cases inside with
  | bottom b =>
    cases b with
    | bottom => exact absurd rfl different
    | top => exact ⟨_, .truth true, .top _⟩
    | int low high =>
      obtain ⟨w, within, above, below⟩ := right.exists_integer
      exact ⟨_, .integer within, .int above below⟩
    | bool low high => exact ⟨_, .truth low, .bool (by cases low <;> rfl) right.ordered⟩
  | top a =>
    cases a with
    | bottom => exact ⟨_, .truth true, .top _⟩
    | top => exact absurd rfl different
    | int low high =>
      by_cases lowest : low = .negInf
      · by_cases highest : high = .posInf
        · subst lowest highest
          exact ⟨_, .anyInt, .top _⟩
        · obtain ⟨high', next⟩ := left.highEnd.exists_next highest
          exact ⟨_, .up next, .top _⟩
      · obtain ⟨low', next⟩ := left.lowEnd.exists_next lowest
        exact ⟨_, .down next, .top _⟩
    | bool low high =>
      rcases bool_single_or_both left.ordered with rfl | both
      · exact ⟨_, .either low, .top _⟩
      · rw [both]
        exact ⟨_, .anyBool, .top _⟩
  | @int low high low' high' down up =>
    by_cases sameLow : low ≤ low'
    · -- The low ends agree, so the high end has to move.
      have low_eq := Bound.le_antisymm down sameLow
      subst low_eq
      have moved : ¬ high' ≤ high := fun back =>
        different (congrArg (int low') (Bound.le_antisymm up back))
      obtain ⟨c, next, below⟩ := Bound.exists_next_le left.highEnd.fits right.highEnd.fits moved
      exact ⟨_, .up next, .int (Bound.le_refl _) below⟩
    · obtain ⟨c, above, next⟩ := Bound.exists_le_next right.lowEnd.fits left.lowEnd.fits sameLow
      exact ⟨_, .down next, .int above up⟩
  | @bool low high low' high' down up =>
    rcases bool_single_or_both left.ordered with rfl | both
    · rcases bool_eq_or_eq down up with same | both
      · exact absurd same.symm different
      · rw [both]
        exact ⟨_, .either low, .refl _⟩
    · -- Nothing but both booleans contains both.
      rw [both] at different
      have larger : Contained (bool false true) (bool low' high') := both ▸ .bool down up
      exact absurd (larger.antisymm (bool_contained_anyBool low' high')) different

/-- The strict order is containment of different intervals. -/
theorem below_iff_contained : (lattice size).below a b = true ↔ Contained a b ∧ a ≠ b := by
  rw [(orderLaws_lattice size).below_iff, atMost_iff_contained]

/-- **Of the intervals of a size, the adjacent ones are those with nothing between them.** -/
theorem directlyBelow_iff (left : Bounded size a) (right : Bounded size b) :
    DirectlyBelow size a b ↔ Adjacent size a b := by
  constructor
  · rintro ⟨strict, empty⟩
    obtain ⟨inside, different⟩ := below_iff_contained.mp strict
    obtain ⟨c, adjacent, below⟩ := exists_adjacent_contained left right inside different
    by_cases same : c = b
    · exact same ▸ adjacent
    · refine absurd ⟨?_, ?_⟩ (empty c (adjacent.bounded left))
      · exact below_iff_contained.mpr ⟨adjacent.contained, adjacent.ne⟩
      · exact below_iff_contained.mpr ⟨below, same⟩
  · intro adjacent
    refine ⟨below_iff_contained.mpr ⟨adjacent.contained, adjacent.ne⟩, ?_⟩
    rintro c bounded ⟨left, right⟩
    rw [below_iff_contained] at left right
    rcases adjacent.eq_or_eq bounded left.1 right.1 with same | same
    · exact left.2 same.symm
    · exact right.2 same

/-! ## Moving one end -/

/-- Of two integers of the size that follow each other, the first is below the upper edge and the second
above the lower one, and one step leads from each to the other. -/
theorem word_of_next {v w : Int64} (within : (Bound.finite v).Within size)
    (within' : (Bound.finite w).Within size) (sum : Checked.add v 1 = some w) :
    (v < size.word ∧ v + 1 = w) ∧ -size.word < w ∧ w - 1 = v := by
  have value := Bound.toInt_eq_of_add sum
  obtain ⟨least, -⟩ := within
  obtain ⟨-, most⟩ := within'
  have below : v < size.word := by
    rw [Int64.lt_iff_toInt_lt, size.toInt_word]
    omega
  have above : -size.word < w := by
    rw [Int64.lt_iff_toInt_lt, size.toInt_neg_word]
    omega
  refine ⟨⟨below, Int64.toInt_inj.mp ?_⟩, above, Int64.toInt_inj.mp ?_⟩
  · rw [IntervalSize.toInt_add_one below, value]
  · rw [IntervalSize.toInt_sub_one above, value]
    omega

/-- A low end goes down to the bound before it. -/
theorem widerLow_of_next (next : Bound.Next size low' low) (finite : low ≠ .posInf) (high : Bound) :
    widerLow size.word low high = [range low' high] := by
  cases next with
  | first => exact if_pos rfl
  | last => exact absurd rfl finite
  | step within within' sum =>
    obtain ⟨-, above, back⟩ := word_of_next within within' sum
    rw [widerLow, if_neg (Int64.ne_of_lt above).symm, if_pos above, back]

/-- A high end goes up to the bound after it. -/
theorem widerHigh_of_next (next : Bound.Next size high high') (finite : high ≠ .negInf) (low : Bound) :
    widerHigh size.word low high = [range low high'] := by
  cases next with
  | first => exact absurd rfl finite
  | last => exact if_pos rfl
  | step within within' sum =>
    obtain ⟨⟨below, sum⟩, -⟩ := word_of_next within within' sum
    rw [widerHigh, if_neg (Int64.ne_of_lt below), if_pos below, sum]

/-- A low end goes up to the bound after it, when that is no infinity. -/
theorem narrowerLow_of_next (next : Bound.Next size low low') (finite : low' ≠ .posInf) (high : Bound) :
    narrowerLow size.word low high = [range low' high] := by
  cases next with
  | first => rfl
  | last => exact absurd rfl finite
  | step within within' sum =>
    obtain ⟨⟨below, sum⟩, -⟩ := word_of_next within within' sum
    rw [narrowerLow, if_pos below, sum]

/-- A high end goes down to the bound before it, when that is no infinity. -/
theorem narrowerHigh_of_next (next : Bound.Next size high' high) (finite : high' ≠ .negInf)
    (low : Bound) : narrowerHigh size.word low high = [range low high'] := by
  cases next with
  | first => exact absurd rfl finite
  | last => rfl
  | step within within' sum =>
    obtain ⟨-, above, back⟩ := word_of_next within within' sum
    rw [narrowerHigh, if_pos above, back]

theorem mem_widerLow (bounded : Bounded size (int low high)) :
    b ∈ widerLow size.word low high ↔ ∃ low', Bound.Next size low' low ∧ b = int low' high := by
  have proper : low ≠ .posInf := by
    rintro rfl
    exact bounded.lowEnd.resolve_left Bound.noConfusion
  have listed : ∀ {low'}, Bound.Next size low' low → widerLow size.word low high = [int low' high] := by
    intro low' next
    rw [widerLow_of_next next proper, range_eq_int (Bound.le_trans next.le bounded.ordered)]
  constructor
  · intro member
    by_cases lowest : low = .negInf
    · rw [lowest] at member
      cases member
    · obtain ⟨low', next⟩ := bounded.lowEnd.exists_next lowest
      rw [listed next] at member
      exact ⟨low', next, List.mem_singleton.mp member⟩
  · rintro ⟨low', next, rfl⟩
    rw [listed next]
    exact List.mem_singleton_self _

theorem mem_widerHigh (bounded : Bounded size (int low high)) :
    b ∈ widerHigh size.word low high ↔ ∃ high', Bound.Next size high high' ∧ b = int low high' := by
  have proper : high ≠ .negInf := by
    rintro rfl
    exact bounded.highEnd.resolve_left Bound.noConfusion
  have listed : ∀ {high'}, Bound.Next size high high' →
      widerHigh size.word low high = [int low high'] := by
    intro high' next
    rw [widerHigh_of_next next proper, range_eq_int (Bound.le_trans bounded.ordered next.le)]
  constructor
  · intro member
    by_cases highest : high = .posInf
    · rw [highest] at member
      cases member
    · obtain ⟨high', next⟩ := bounded.highEnd.exists_next highest
      rw [listed next] at member
      exact ⟨high', next, List.mem_singleton.mp member⟩
  · rintro ⟨high', next, rfl⟩
    rw [listed next]
    exact List.mem_singleton_self _

/-- Unlike a wider interval, a narrower one may fall out of the size: the low end that comes after the
upper edge is the upper infinity. -/
theorem mem_narrowerLow (bounded : Bounded size (int low high)) (wide : low ≠ high) :
    a ∈ narrowerLow size.word low high ↔
      Bounded size a ∧ ∃ low', Bound.Next size low low' ∧ a = int low' high := by
  have apart : ¬ high ≤ low := fun crossed => wide (Bound.le_antisymm bounded.ordered crossed)
  have inOrder : ∀ {low'}, Bound.Next size low low' → low' ≤ high := fun next =>
    (next.le_or_le bounded.highEnd.fits).resolve_left apart
  constructor
  · intro member
    obtain ⟨low', next, -⟩ := Bound.exists_next_le bounded.lowEnd.fits bounded.highEnd.fits apart
    by_cases infinite : low' = .posInf
    · subst infinite
      cases next
      rw [narrowerLow, if_neg Int64.lt_irrefl] at member
      cases member
    · rw [narrowerLow_of_next next infinite, range_eq_int (inOrder next), List.mem_singleton] at member
      subst member
      have within := next.highEnd.resolve_left infinite
      exact ⟨⟨inOrder next, Or.inr within, bounded.highEnd⟩, low', next, rfl⟩
  · rintro ⟨inside, low', next, rfl⟩
    have proper : low' ≠ .posInf := by
      rintro rfl
      exact inside.lowEnd.resolve_left Bound.noConfusion
    rw [narrowerLow_of_next next proper, range_eq_int (inOrder next)]
    exact List.mem_singleton_self _

theorem mem_narrowerHigh (bounded : Bounded size (int low high)) (wide : low ≠ high) :
    a ∈ narrowerHigh size.word low high ↔
      Bounded size a ∧ ∃ high', Bound.Next size high' high ∧ a = int low high' := by
  have apart : ¬ high ≤ low := fun crossed => wide (Bound.le_antisymm bounded.ordered crossed)
  have inOrder : ∀ {high'}, Bound.Next size high' high → low ≤ high' := fun next =>
    (next.le_or_le bounded.lowEnd.fits).resolve_right apart
  constructor
  · intro member
    obtain ⟨high', -, next⟩ := Bound.exists_le_next bounded.lowEnd.fits bounded.highEnd.fits apart
    by_cases infinite : high' = .negInf
    · subst infinite
      cases next
      rw [narrowerHigh, if_neg Int64.lt_irrefl] at member
      cases member
    · rw [narrowerHigh_of_next next infinite, range_eq_int (inOrder next), List.mem_singleton] at member
      subst member
      have within := next.lowEnd.resolve_left infinite
      exact ⟨⟨inOrder next, bounded.lowEnd, Or.inr within⟩, high', next, rfl⟩
  · rintro ⟨inside, high', next, rfl⟩
    have proper : high' ≠ .negInf := by
      rintro rfl
      exact inside.highEnd.resolve_left Bound.noConfusion
    rw [narrowerHigh_of_next next proper, range_eq_int (inOrder next)]
    exact List.mem_singleton_self _

/-! ## The listings -/

/-- A single integer is an interval whose ends are the same. -/
theorem constant_eq (w : Int64) : constant w = int (.finite w) (.finite w) :=
  range_eq_int (Bound.le_refl _)

/-- The single integers of a size are zero and those up to the size, in both signs. -/
theorem mem_constants_iff :
    b ∈ constant 0 :: constantsUpTo size ↔ ∃ w, (Bound.finite w).Within size ∧ b = constant w := by
  have zero : (0 : Int64).toInt = 0 := rfl
  constructor
  · intro member
    rcases List.mem_cons.mp member with rfl | member
    · exact ⟨0, ⟨by omega, by omega⟩, rfl⟩
    · obtain ⟨i, inside, member⟩ := List.mem_flatMap.mp member
      have inside : i + 1 ≤ size.toNat := List.mem_range.mp inside
      have value := IntervalSize.toInt_ofNat inside
      have value' := IntervalSize.toInt_neg_ofNat inside
      rcases List.mem_pair.mp member with rfl | rfl
      · exact ⟨_, ⟨by omega, by omega⟩, rfl⟩
      · exact ⟨_, ⟨by omega, by omega⟩, rfl⟩
  · rintro ⟨w, ⟨least, most⟩, rfl⟩
    by_cases isZero : w.toInt = 0
    · have same : w = 0 := Int64.toInt_inj.mp (isZero.trans zero.symm)
      rw [same]
      exact List.mem_cons_self
    · -- The distance from zero, less one, is the place in the list.
      have inside : w.toInt.natAbs - 1 + 1 ≤ size.toNat := by omega
      have value := IntervalSize.toInt_ofNat inside
      have value' := IntervalSize.toInt_neg_ofNat inside
      refine List.mem_cons_of_mem _ (List.mem_flatMap.mpr ⟨w.toInt.natAbs - 1, ?_, ?_⟩)
      · exact List.mem_range.mpr (by omega)
      · rw [List.mem_pair]
        rcases Int.lt_or_gt_of_ne isZero with negative | positive
        · refine Or.inr (congrArg constant (Int64.toInt_inj.mp ?_))
          omega
        · refine Or.inl (congrArg constant (Int64.toInt_inj.mp ?_))
          omega

/-- **What is listed above an interval of the size is what is adjacent to it from above.** -/
theorem mem_successors_iff (bounded : Bounded size a) : b ∈ successors size a ↔ Adjacent size a b := by
  cases a with
  | top => exact iff_of_false List.not_mem_nil (fun adjacent => by cases adjacent)
  | bottom =>
    rw [successors, List.mem_cons, List.mem_cons, mem_constants_iff]
    constructor
    · rintro (rfl | rfl | ⟨w, within, rfl⟩)
      · exact .truth true
      · exact .truth false
      · exact constant_eq w ▸ .integer within
    · intro adjacent
      cases adjacent with
      | @integer w within => exact Or.inr (Or.inr ⟨w, within, (constant_eq w).symm⟩)
      | truth value => cases value <;> simp [boolean]
  | bool low high =>
    rcases bool_single_or_both bounded.ordered with rfl | both
    · have listed : successors size (bool low low) = [bool false true] := by cases low <;> rfl
      rw [listed, List.mem_singleton]
      constructor
      · rintro rfl
        exact .either low
      · intro adjacent
        cases adjacent
        rfl
    · rw [both, successors, List.mem_singleton]
      constructor
      · rintro rfl
        exact .anyBool
      · intro adjacent
        cases adjacent
        rfl
  | int low high =>
    by_cases all : low = .negInf ∧ high = .posInf
    · obtain ⟨rfl, rfl⟩ := all
      rw [successors, List.mem_singleton]
      constructor
      · rintro rfl
        exact .anyInt
      · intro adjacent
        cases adjacent with
        | anyInt => rfl
        | down next | up next => cases next
    · have listed : successors size (int low high) =
          widerLow size.word low high ++ widerHigh size.word low high := by
        cases low <;> cases high <;> first | rfl | exact absurd ⟨rfl, rfl⟩ all
      rw [listed, List.mem_append, mem_widerLow bounded, mem_widerHigh bounded]
      constructor
      · rintro (⟨low', next, rfl⟩ | ⟨high', next, rfl⟩)
        · exact .down next
        · exact .up next
      · intro adjacent
        cases adjacent with
        | down next => exact Or.inl ⟨_, next, rfl⟩
        | up next => exact Or.inr ⟨_, next, rfl⟩
        | anyInt => exact absurd ⟨rfl, rfl⟩ all

/-- **What is listed below an interval of the size is what is adjacent to it from below in the size.** -/
theorem mem_predecessors_iff (bounded : Bounded size b) :
    a ∈ predecessors size b ↔ Bounded size a ∧ Adjacent size a b := by
  have empty : Bounded size bottom := ⟨trivial, trivial⟩
  cases b with
  | bottom => exact iff_of_false List.not_mem_nil (fun both => by cases both.2)
  | top =>
    rw [predecessors, List.mem_pair]
    constructor
    · rintro (rfl | rfl)
      · exact ⟨⟨rfl, trivial⟩, .anyBool⟩
      · exact ⟨⟨Bound.le_posInf _, Or.inl rfl, Or.inl rfl⟩, .anyInt⟩
    · rintro ⟨-, adjacent⟩
      cases adjacent with
      | anyBool => exact Or.inl rfl
      | anyInt => exact Or.inr rfl
  | bool low high =>
    rcases bool_single_or_both bounded.ordered with rfl | both
    · have listed : predecessors size (bool low low) = [bottom] := by cases low <;> rfl
      rw [listed, List.mem_singleton]
      constructor
      · rintro rfl
        exact ⟨empty, .truth low⟩
      · rintro ⟨-, adjacent⟩
        cases adjacent
        rfl
    · rw [both, predecessors, List.mem_pair]
      constructor
      · rintro (rfl | rfl)
        · exact ⟨⟨rfl, trivial⟩, .either false⟩
        · exact ⟨⟨rfl, trivial⟩, .either true⟩
      · rintro ⟨-, adjacent⟩
        cases adjacent with
        | either value => cases value <;> simp [boolean]
  | int low high =>
    by_cases single : low = high
    · subst single
      rw [predecessors, if_pos rfl, List.mem_singleton]
      constructor
      · rintro rfl
        -- An end that is both a low end and a high end is an integer of the size.
        obtain ⟨w, within, above, below⟩ := bounded.exists_integer
        have same := Bound.le_antisymm above below
        subst same
        exact ⟨empty, .integer within⟩
      · rintro ⟨inside, adjacent⟩
        cases adjacent with
        | integer => rfl
        | down next => exact absurd (Bound.le_antisymm next.le inside.ordered) next.ne
        | up next => exact absurd (Bound.le_antisymm next.le inside.ordered) next.ne
    · rw [predecessors, if_neg single, List.mem_append, mem_narrowerLow bounded single,
        mem_narrowerHigh bounded single, ← and_or_left]
      refine and_congr_right fun _ => ?_
      constructor
      · rintro (⟨low', next, rfl⟩ | ⟨high', next, rfl⟩)
        · exact .down next
        · exact .up next
      · intro adjacent
        cases adjacent with
        | integer => exact absurd rfl single
        | down next => exact Or.inl ⟨_, next, rfl⟩
        | up next => exact Or.inr ⟨_, next, rfl⟩

/-! ## No value is listed twice -/

theorem constant_injective : Function.Injective constant := by
  intro v w same
  rw [constant_eq, constant_eq] at same
  exact Bound.finite.inj (int.inj same).1

/-- The single integers of a size are different from each other. -/
theorem nodup_constants (size : IntervalSize) : (constant 0 :: constantsUpTo size).Nodup := by
  have zero : (0 : Int64).toInt = 0 := rfl
  -- Different places have different distances from zero, and at one place the signs differ.
  have value : ∀ {i}, i < size.toNat → (Int64.ofNat (i + 1)).toInt = (i : Int) + 1 ∧
      (-Int64.ofNat (i + 1)).toInt = -((i : Int) + 1) := fun inside =>
    ⟨IntervalSize.toInt_ofNat inside, IntervalSize.toInt_neg_ofNat inside⟩
  have apart : ∀ {v w : Int64}, v.toInt ≠ w.toInt → constant v ≠ constant w := fun differ same =>
    differ (congrArg Int64.toInt (constant_injective same))
  rw [List.nodup_cons, constantsUpTo, List.nodup_flatMap]
  refine ⟨?_, ?_, ?_⟩
  · intro member
    obtain ⟨i, inside, member⟩ := List.mem_flatMap.mp member
    obtain ⟨plus, minus⟩ := value (List.mem_range.mp inside)
    rcases List.mem_pair.mp member with same | same
    · exact apart (by omega) same
    · exact apart (by omega) same
  · intro i inside
    obtain ⟨plus, minus⟩ := value (List.mem_range.mp inside)
    have differ := apart (v := Int64.ofNat (i + 1)) (w := -Int64.ofNat (i + 1)) (by omega)
    exact List.nodup_cons.mpr ⟨fun member => differ (List.mem_singleton.mp member),
      List.nodup_singleton _⟩
  · refine List.Pairwise.imp_of_mem ?_ List.nodup_range
    intro i j left right differ b here there
    obtain ⟨plus, minus⟩ := value (List.mem_range.mp left)
    obtain ⟨plus', minus'⟩ := value (List.mem_range.mp right)
    rcases List.mem_pair.mp here with rfl | rfl <;> rcases List.mem_pair.mp there with same | same
    · exact apart (by omega) same
    · exact apart (by omega) same
    · exact apart (by omega) same
    · exact apart (by omega) same

/-- One end can be moved one way at most. -/
theorem nodup_moved (n : Int64) (low high : Bound) :
    (widerLow n low high).Nodup ∧ (widerHigh n low high).Nodup ∧
    (narrowerLow n low high).Nodup ∧ (narrowerHigh n low high).Nodup := by
  unfold widerLow widerHigh narrowerLow narrowerHigh
  refine ⟨?_, ?_, ?_, ?_⟩
  all_goals
    repeat' split
    all_goals simp

/-- No interval is listed twice above another. -/
theorem nodup_successors (bounded : Bounded size a) : (successors size a).Nodup := by
  cases a with
  | top => exact List.nodup_nil
  | bottom =>
    have noBoolean : ∀ value, boolean value ∉ constant 0 :: constantsUpTo size := by
      intro value member
      obtain ⟨w, -, same⟩ := mem_constants_iff.mp member
      rw [constant_eq] at same
      cases same
    refine List.nodup_cons.mpr ⟨?_, List.nodup_cons.mpr ⟨noBoolean false, nodup_constants size⟩⟩
    intro member
    rcases List.mem_cons.mp member with same | member
    · cases same
    · exact noBoolean true member
  | bool low high => cases low <;> cases high <;> exact List.nodup_singleton _
  | int low high =>
    have separate : (widerLow size.word low high).Disjoint (widerHigh size.word low high) := by
      intro b here there
      obtain ⟨low', next, rfl⟩ := (mem_widerLow bounded).mp here
      obtain ⟨high', -, same⟩ := (mem_widerHigh bounded).mp there
      exact next.ne (int.inj same).1
    obtain ⟨down, up, -⟩ := nodup_moved size.word low high
    have both := down.append up separate
    cases low <;> cases high <;> first | exact List.nodup_singleton _ | exact both

/-- No interval is listed twice below another. -/
theorem nodup_predecessors (bounded : Bounded size b) : (predecessors size b).Nodup := by
  cases b with
  | bottom => exact List.nodup_nil
  | top => exact (by decide : [anyBool, anyInt].Nodup)
  | bool low high => cases low <;> cases high <;> simp [predecessors, boolean]
  | int low high =>
    rw [predecessors]
    split
    · exact List.nodup_singleton _
    · next wide =>
      obtain ⟨-, -, up, down⟩ := nodup_moved size.word low high
      refine up.append down ?_
      intro a here there
      obtain ⟨-, low', next, rfl⟩ := (mem_narrowerLow bounded wide).mp here
      obtain ⟨-, high', -, same⟩ := (mem_narrowerHigh bounded wide).mp there
      exact next.ne (int.inj same).1.symm

/-! ## Covers -/

/-- The check of the covers finds no violation on intervals of the size. -/
theorem check_covers_eq_nil (text : Interval → String) {elements : List Interval}
    (values : ∀ a ∈ elements, Bounded size a) : (lattice size).check text elements .covers = [] := by
  simp only [check, checkCovers, List.flatMap_eq_nil_iff, List.append_eq_nil_iff, violation_eq_nil_iff,
    decide_eq_true_eq]
  intro a member
  have bounded := values a member
  constructor
  · intro b listed
    have adjacent := (mem_successors_iff bounded).mp listed
    refine ⟨below_iff_contained.mpr ⟨adjacent.contained, adjacent.ne⟩, ?_⟩
    exact (mem_predecessors_iff (adjacent.bounded bounded)).mpr ⟨bounded, adjacent⟩
  · intro b listed
    obtain ⟨-, adjacent⟩ := (mem_predecessors_iff bounded).mp listed
    exact below_iff_contained.mpr ⟨adjacent.contained, adjacent.ne⟩

/-- **The two listings of an interval are its covers in the lattice of the size**, for every size. Of two
intervals of the size, one is listed above the other exactly when the other is listed below the one, and
exactly when the other is strictly below the one with no interval of the size strictly between. Nothing is
listed twice; everything listed is of the size and one step away; and no step leaves the 64-bit range. So
the check of the covers finds no violation. -/
theorem listings_are_covers (size : IntervalSize) :
    (∀ a b, Bounded size a → Bounded size b →
      (b ∈ successors size a ↔ a ∈ predecessors size b) ∧
      (a ∈ predecessors size b ↔ DirectlyBelow size a b)) ∧
    (∀ a, Bounded size a →
      (successors size a).Nodup ∧ (predecessors size a).Nodup ∧
      (∀ b ∈ successors size a, Bounded size b ∧ Adjacent size a b) ∧
      (∀ b ∈ predecessors size a, Bounded size b ∧ Adjacent size b a)) ∧
    size.StepsFit ∧
    ∀ (text : Interval → String) (elements : List Interval), (∀ a ∈ elements, Bounded size a) →
      (lattice size).check text elements .covers = [] := by
  refine ⟨?_, ?_, size.stepsFit, fun text _ => check_covers_eq_nil text⟩
  · intro a b left right
    rw [mem_successors_iff left, mem_predecessors_iff right, directlyBelow_iff left right]
    have same : Bounded size a ∧ Adjacent size a b ↔ Adjacent size a b := and_iff_right left
    exact ⟨same.symm, same⟩
  · intro a bounded
    refine ⟨nodup_successors bounded, nodup_predecessors bounded, ?_, ?_⟩
    · intro b listed
      have adjacent := (mem_successors_iff bounded).mp listed
      exact ⟨adjacent.bounded bounded, adjacent⟩
    · intro b listed
      exact (mem_predecessors_iff bounded).mp listed

/-- With size zero the only finite interval is zero alone. It is directly below the integers up to zero,
which have no integer of the size more than it. -/
theorem zero_directly_below_nonpositive :
    Bounded 0 (int (.finite 0) (.finite 0)) ∧ Bounded 0 (int .negInf (.finite 0)) ∧
    int .negInf (.finite 0) ∈ successors 0 (int (.finite 0) (.finite 0)) ∧
    int (.finite 0) (.finite 0) ∈ predecessors 0 (int .negInf (.finite 0)) ∧
    DirectlyBelow 0 (int (.finite 0) (.finite 0)) (int .negInf (.finite 0)) := by
  have zero : (Bound.finite 0).Within 0 := ⟨by decide, by decide⟩
  have single : Bounded 0 (int (.finite 0) (.finite 0)) := ⟨Bound.le_refl _, Or.inr zero, Or.inr zero⟩
  have half : Bounded 0 (int .negInf (.finite 0)) := ⟨Bound.negInf_le _, Or.inl rfl, Or.inr zero⟩
  obtain ⟨above_iff, below_iff⟩ := (listings_are_covers 0).1 _ _ single half
  have above : int .negInf (.finite 0) ∈ successors 0 (int (.finite 0) (.finite 0)) := by decide
  exact ⟨single, half, above, above_iff.mp above, below_iff.mp (above_iff.mp above)⟩

end Interval

end Dataflow
