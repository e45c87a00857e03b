import Dataflow.Proofs.Interval.Covers
import Dataflow.Proofs.ValueLattice.Walk
import Mathlib.Data.List.Perm.Subperm
import Mathlib.Tactic.Ring

/-!
# Enumerating the intervals of a size

From the bottom every interval of a size is reached: each step towards it is a cover, and the height that
is left falls with every step (`reaches_of_contained`). Nothing else is reached, since covers stay in the
size. So the walk of the lattice meets the intervals of the size and nothing more
(`reachable_iff_bounded`).

How far a walk has to go is a matter of counting: `values` lists the intervals of a size by their high
ends, each with the low ends up to it. A walk that may list as many values as there are lists each of them
once (`enumeration_is_breadth_first`).
-/

set_option autoImplicit false

namespace Dataflow.Interval

open Env

variable {size : IntervalSize} {a b : Interval}

/-! ## What covers lead to -/

/-- From an interval above the bottom, covers lead to every interval of the size that contains it. -/
theorem reaches_of_contained (stored : Stored size a) (right : Bounded size b) (inside : Contained a b) :
    Relation.ReflTransGen (fun v w => w ∈ successors size v) a b := by
  -- Each cover on the way is lower, in the sense of what it can still rise.
  induction rise : height size a using Nat.strong_induction_on generalizing a with
  | _ n ih =>
    by_cases same : a = b
    · exact same ▸ .refl
    · have bounded : Bounded size a := ⟨stored.ordered, stored.inSize⟩
      obtain ⟨c, adjacent, below⟩ := exists_adjacent_contained bounded right inside same
      obtain ⟨ordered, inSize⟩ := adjacent.bounded bounded
      have stored' : Stored size c := ⟨⟨adjacent.ne_bottom, ordered⟩, inSize⟩
      have lower : height size c < height size a := (descends_height size).lt_of_rise stored stored'
        (atMost_iff_contained.mpr adjacent.contained) adjacent.ne
      have rest := ih _ (rise ▸ lower) stored' below rfl
      exact .head ((mem_successors_iff bounded).mpr adjacent) rest

/-- **The intervals that covers lead to from the bottom are those of the size.** -/
theorem reachable_iff_bounded : (lattice size).Reachable a ↔ Bounded size a := by
  have empty : Bounded size bottom := ⟨trivial, trivial⟩
  constructor
  · intro reachable
    induction reachable with
    | refl => exact empty
    | tail _ covers ih => exact ((mem_successors_iff ih).mp covers).bounded ih
  · intro bounded
    by_cases same : bottom = a
    · exact same ▸ .refl
    · obtain ⟨c, adjacent, below⟩ := exists_adjacent_contained empty bounded (.bottom a) same
      obtain ⟨ordered, inSize⟩ := adjacent.bounded empty
      have rest := reaches_of_contained ⟨⟨adjacent.ne_bottom, ordered⟩, inSize⟩ bounded below
      exact .head ((mem_successors_iff empty).mpr adjacent) rest

/-! ## The intervals of a size -/

/-- The integers of a size, counted from the lower edge. -/
def wordAt (size : IntervalSize) (i : Nat) : Int64 := Int64.ofInt (i - size.toNat)

theorem toInt_wordAt {i : Nat} (inside : i < 2 * size.toNat + 1) :
    (wordAt size i).toInt = i - size.toNat := by
  have small : size.toNat < 2 ^ 32 := UInt32.toNat_lt size
  exact Checked.toInt_ofInt (by unfold Checked.least; omega) (by unfold Checked.greatest; omega)

theorem within_wordAt {i : Nat} (inside : i < 2 * size.toNat + 1) :
    (Bound.finite (wordAt size i)).Within size := by
  have value := toInt_wordAt inside
  exact ⟨by omega, by omega⟩

/-- Every integer of the size has a place. -/
theorem exists_wordAt {w : Int64} (within : (Bound.finite w).Within size) :
    ∃ i < 2 * size.toNat + 1, w = wordAt size i := by
  obtain ⟨least, most⟩ := within
  have inside : (w.toInt + size.toNat).toNat < 2 * size.toNat + 1 := by omega
  refine ⟨_, inside, Int64.toInt_inj.mp ?_⟩
  rw [toInt_wordAt inside]
  omega

/-- The lower infinity and the first integers of a size. -/
def lowEnds (size : IntervalSize) (n : Nat) : List Bound :=
  .negInf :: (List.range n).map fun i => .finite (wordAt size i)

/-- The intervals with one of the first integers of a size as their high end. -/
def rows (size : IntervalSize) (n : Nat) : List Interval :=
  (List.range n).flatMap fun j => (lowEnds size (j + 1)).map (int · (.finite (wordAt size j)))

/-- The intervals of a size. -/
def values (size : IntervalSize) : List Interval :=
  [bottom, top, boolean false, boolean true, anyBool] ++
    ((lowEnds size (2 * size.toNat + 1)).map (int · .posInf) ++ rows size (2 * size.toNat + 1))

theorem length_lowEnds (n : Nat) : (lowEnds size n).length = n + 1 := by
  simp [lowEnds]

/-- The row of the high end at place `j` has `j + 2` intervals. -/
theorem length_rows (size : IntervalSize) (n : Nat) : 2 * (rows size n).length = n * (n + 3) := by
  induction n with
  | zero => rfl
  | succ n ih =>
    have next : (rows size (n + 1)).length = (rows size n).length + (n + 2) := by
      simp [rows, List.range_succ, length_lowEnds]
    rw [next, Nat.mul_add, ih]
    ring

/-- How many intervals a size has. -/
theorem length_values (size : IntervalSize) :
    (values size).length = (2 * size.toNat + 3) * (size.toNat + 2) + 3 := by
  have twice := length_rows size (2 * size.toNat + 1)
  have finite : (rows size (2 * size.toNat + 1)).length = (2 * size.toNat + 1) * (size.toNat + 2) := by
    refine Nat.eq_of_mul_eq_mul_left Nat.two_pos (twice.trans ?_)
    ring
  have total : (values size).length =
      5 + (2 * size.toNat + 2 + (rows size (2 * size.toNat + 1)).length) := by
    simp only [values, List.length_append, List.length_map, length_lowEnds, List.length_cons,
      List.length_nil]
  rw [total, finite]
  ring

theorem mem_lowEnds {low : Bound} {n : Nat} :
    low ∈ lowEnds size n ↔ low = .negInf ∨ ∃ i < n, low = .finite (wordAt size i) := by
  simp only [lowEnds, List.mem_cons, List.mem_map, List.mem_range]
  refine or_congr_right (exists_congr fun i => and_congr_right fun _ => eq_comm)

/-- The low ends of a size are those listed. -/
theorem lowEnd_iff_mem {low : Bound} :
    low.LowEnd size ↔ low ∈ lowEnds size (2 * size.toNat + 1) := by
  rw [mem_lowEnds]
  constructor
  · rintro (lowest | within)
    · exact Or.inl lowest
    · cases low with
      | negInf | posInf => exact within.elim
      | finite w =>
        obtain ⟨i, inside, rfl⟩ := exists_wordAt within
        exact Or.inr ⟨i, inside, rfl⟩
  · rintro (lowest | ⟨i, inside, rfl⟩)
    · exact Or.inl lowest
    · exact Or.inr (within_wordAt inside)

/-- The low ends up to an integer of the size are those listed up to its place. -/
theorem lowEnd_le_iff_mem {low : Bound} {j : Nat} (inside : j < 2 * size.toNat + 1) :
    low.LowEnd size ∧ low ≤ .finite (wordAt size j) ↔ low ∈ lowEnds size (j + 1) := by
  rw [lowEnd_iff_mem, mem_lowEnds, mem_lowEnds]
  constructor
  · rintro ⟨lowest | ⟨i, inside', rfl⟩, below⟩
    · exact Or.inl lowest
    · rw [Bound.finite_le_finite, toInt_wordAt inside, toInt_wordAt inside'] at below
      exact Or.inr ⟨i, by omega, rfl⟩
  · rintro (rfl | ⟨i, before, rfl⟩)
    · exact ⟨Or.inl rfl, Bound.negInf_le _⟩
    · have inside' : i < 2 * size.toNat + 1 := by omega
      refine ⟨Or.inr ⟨i, inside', rfl⟩, ?_⟩
      rw [Bound.finite_le_finite, toInt_wordAt inside, toInt_wordAt inside']
      omega

theorem mem_rows {low high : Bound} : int low high ∈ rows size (2 * size.toNat + 1) ↔
    ∃ j < 2 * size.toNat + 1, high = .finite (wordAt size j) ∧ low ∈ lowEnds size (j + 1) := by
  simp only [rows, List.mem_flatMap, List.mem_range, List.mem_map, int.injEq]
  refine exists_congr fun j => and_congr_right fun _ => ?_
  constructor
  · rintro ⟨_, listed, rfl, rfl⟩
    exact ⟨rfl, listed⟩
  · rintro ⟨rfl, listed⟩
    exact ⟨low, listed, rfl, rfl⟩

/-- Intervals of integers of the size are listed by their high ends. -/
theorem bounded_int_iff_mem {low high : Bound} : Bounded size (int low high) ↔
    int low high ∈ (lowEnds size (2 * size.toNat + 1)).map (int · .posInf) ++
      rows size (2 * size.toNat + 1) := by
  have infinite : int low high ∈ (lowEnds size (2 * size.toNat + 1)).map (int · .posInf) ↔
      high = .posInf ∧ low.LowEnd size := by
    rw [lowEnd_iff_mem, List.mem_map]
    constructor
    · rintro ⟨_, listed, same⟩
      cases same
      exact ⟨rfl, listed⟩
    · rintro ⟨rfl, listed⟩
      exact ⟨low, listed, rfl⟩
  rw [List.mem_append, infinite, mem_rows]
  constructor
  · intro bounded
    have ordered := bounded.ordered
    rcases bounded.highEnd with highest | within
    · exact Or.inl ⟨highest, bounded.lowEnd⟩
    · cases high with
      | negInf | posInf => exact within.elim
      | finite w =>
        obtain ⟨j, inside, rfl⟩ := exists_wordAt within
        exact Or.inr ⟨j, inside, rfl, (lowEnd_le_iff_mem inside).mp ⟨bounded.lowEnd, ordered⟩⟩
  · rintro (⟨rfl, lowEnd⟩ | ⟨j, inside, rfl, listed⟩)
    · exact ⟨Bound.le_posInf _, lowEnd, Or.inl rfl⟩
    · obtain ⟨lowEnd, below⟩ := (lowEnd_le_iff_mem inside).mpr listed
      exact ⟨below, lowEnd, Or.inr (within_wordAt inside)⟩

/-- **The intervals of a size are those listed.** -/
theorem mem_values_iff : a ∈ values size ↔ Bounded size a := by
  rw [values, List.mem_append]
  cases a with
  | bottom | top => exact iff_of_true (Or.inl (by simp)) ⟨trivial, trivial⟩
  | bool low high =>
    have three : bool low high ∈ [bottom, top, boolean false, boolean true, anyBool] ↔
        boolLe low high = true := by
      cases low <;> cases high <;> decide
    rw [or_iff_left (by simp [rows]), three]
    exact ⟨fun ordered => ⟨ordered, trivial⟩, Bounded.ordered⟩
  | int low high =>
    rw [or_iff_right (by simp [boolean, anyBool])]
    exact bounded_int_iff_mem.symm

theorem wordAt_inj {i j : Nat} (left : i < 2 * size.toNat + 1) (right : j < 2 * size.toNat + 1)
    (same : wordAt size i = wordAt size j) : i = j := by
  have value := toInt_wordAt left
  have value' := toInt_wordAt right
  rw [same] at value
  omega

theorem nodup_lowEnds {n : Nat} (inside : n ≤ 2 * size.toNat + 1) : (lowEnds size n).Nodup := by
  refine List.nodup_cons.mpr ⟨by simp, List.nodup_range.map_on ?_⟩
  intro i left j right same
  rw [List.mem_range] at left right
  exact wordAt_inj (by omega) (by omega) (Bound.finite.inj same)

/-- A row of intervals with one high end has as many different intervals as low ends. -/
theorem nodup_row {n : Nat} (inside : n ≤ 2 * size.toNat + 1) (high : Bound) :
    ((lowEnds size n).map (int · high)).Nodup :=
  (nodup_lowEnds inside).map fun _ _ same => (int.inj same).1

theorem nodup_rows (size : IntervalSize) : (rows size (2 * size.toNat + 1)).Nodup := by
  rw [rows, List.nodup_flatMap]
  constructor
  · intro j inside
    exact nodup_row (List.mem_range.mp inside) _
  · refine List.Pairwise.imp_of_mem ?_ List.nodup_range
    intro i j left right differ a here there
    obtain ⟨_, -, rfl⟩ := List.mem_map.mp here
    obtain ⟨_, -, same⟩ := List.mem_map.mp there
    have high := Bound.finite.inj (int.inj same).2
    exact differ (wordAt_inj (List.mem_range.mp right) (List.mem_range.mp left) high).symm

/-- No interval of a size is listed twice. -/
theorem nodup_values (size : IntervalSize) : (values size).Nodup := by
  have special : [bottom, top, boolean false, boolean true, anyBool].Nodup := by decide
  refine special.append ((nodup_row (Nat.le_refl _) _).append (nodup_rows size) ?_) ?_
  · intro a here there
    obtain ⟨low, -, rfl⟩ := List.mem_map.mp here
    obtain ⟨j, -, high, -⟩ := mem_rows.mp there
    cases high
  · intro a here there
    have integers : ∃ low high, a = int low high := by
      rcases List.mem_append.mp there with row | row
      · obtain ⟨low, -, rfl⟩ := List.mem_map.mp row
        exact ⟨low, _, rfl⟩
      · obtain ⟨j, -, row⟩ := List.mem_flatMap.mp row
        obtain ⟨low, -, rfl⟩ := List.mem_map.mp row
        exact ⟨low, _, rfl⟩
    obtain ⟨low, high, rfl⟩ := integers
    simp [boolean, anyBool] at here

/-! ## Enumeration -/

/-- **With enough room the walk lists the intervals of the size**, each once. -/
theorem enumerate_perm_values {limit : Nat} (enough : (values size).length ≤ limit) :
    ((lattice size).enumerate limit).Perm (values size) := by
  have walk := (lattice size).breadthFirst_enumerate limit
  have inside : (lattice size).enumerate limit ⊆ values size := by
    intro a member
    exact mem_values_iff.mpr (reachable_iff_bounded.mp (walk.reachable a member))
  rcases Nat.lt_or_eq_of_le walk.length_le with short | full
  · refine (List.perm_ext_iff_of_nodup walk.distinct (nodup_values size)).mpr fun a => ⟨@inside a, ?_⟩
    intro member
    exact walk.complete short a (reachable_iff_bounded.mpr (mem_values_iff.mp member))
  · -- A list that is full holds as many of the intervals as there are.
    exact (walk.distinct.subperm inside).perm_of_length_le (Nat.le_trans enough (Nat.le_of_eq full.symm))

/-- **Enumeration is a complete breadth-first walk of every lattice.** It lists different values that
covers lead to from the bottom, at most as many as the limit, from the bottom on and in the order of their
distances from it; with a higher limit it only goes on; and when it lists fewer values than the limit, it
lists all that covers lead to. So with a limit of at least the number of intervals of a size, it lists
exactly the intervals of the size, each once. -/
theorem enumeration_is_breadth_first :
    (∀ (α : Type) [DecidableEq α] (L : ValueLattice α) (limit : Nat),
      L.BreadthFirst limit (L.enumerate limit) ∧ L.enumerate limit <+: L.enumerate (limit + 1)) ∧
    ∀ (size : IntervalSize) (limit : Nat), (2 * size.toNat + 3) * (size.toNat + 2) + 3 ≤ limit →
      ((lattice size).enumerate limit).length = (2 * size.toNat + 3) * (size.toNat + 2) + 3 ∧
      ((lattice size).enumerate limit).Nodup ∧
      ∀ a, a ∈ (lattice size).enumerate limit ↔ Bounded size a := by
  constructor
  · intro α _ L limit
    exact ⟨L.breadthFirst_enumerate limit, L.walk_prefix_succ limit [] [L.bottom]⟩
  · intro size limit enough
    rw [← length_values] at enough ⊢
    have all := enumerate_perm_values enough
    refine ⟨all.length_eq, all.nodup_iff.mpr (nodup_values size), ?_⟩
    intro a
    rw [all.mem_iff, mem_values_iff]

/-- With size one there are eighteen intervals, and a limit of a hundred lists them. -/
theorem size_one_fully_enumerated :
    (2 * UInt32.toNat 1 + 3) * (UInt32.toNat 1 + 2) + 3 ≤ 100 ∧
    ((lattice 1).enumerate 100).length = 18 ∧ ((lattice 1).enumerate 100).Nodup ∧
    int .negInf (.finite 1) ∈ (lattice 1).enumerate 100 := by
  have enough : (2 * UInt32.toNat 1 + 3) * (UInt32.toNat 1 + 2) + 3 ≤ 100 := by decide
  obtain ⟨count, once, all⟩ := enumeration_is_breadth_first.2 1 100 enough
  have one : (Bound.finite 1).Within 1 := ⟨by decide, by decide⟩
  exact ⟨enough, count, once, (all _).mpr ⟨Bound.negInf_le _, Or.inl rfl, Or.inr one⟩⟩

end Dataflow.Interval
