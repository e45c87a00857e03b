import Dataflow.Proofs.Interval.Soundness
import Dataflow.Proofs.Zero.Order

/-!
# Intervals within the size

An interval is `Ordered` when its low end is not above its high end, and `InSize` when each of its ends
is infinite outward or an integer at most the size away from zero. Whatever the interval analysis
stores has both properties and is not bottom, at every moment of every run
(`runs_store_proper_environments`).

Sums and comparisons near the ends of the 64-bit range saturate, so a low end can become the upper
infinity before an interval is brought into the size. Bringing it there moves the low end down and the
high end up, which keeps the order and gets rid of such ends (`inSize_normalize`, `ordered_normalize`).
-/

set_option autoImplicit false

namespace Dataflow

/-- Bounds that are integers at most the size away from zero. -/
def Bound.Within (size : IntervalSize) : Bound → Prop
  | finite w => -(size.toNat : Int) ≤ w.toInt ∧ w.toInt ≤ size.toNat
  | _ => False

namespace IntervalSize

/-- The word of a size has its value. -/
theorem toInt_word (size : IntervalSize) : size.word.toInt = size.toNat := by
  have small : size.toNat < 2 ^ 32 := UInt32.toNat_lt size
  exact Int64.toInt_ofNat_of_lt (by omega)

/-- The negated word of a size has the negated value. -/
theorem toInt_neg_word (size : IntervalSize) : (-size.word).toInt = -(size.toNat : Int) := by
  have small : size.toNat < 2 ^ 32 := UInt32.toNat_lt size
  rw [Int64.toInt_neg, toInt_word]
  exact Int.bmod_eq_of_le (by omega) (by omega)

end IntervalSize

namespace Interval

open Analysis

/-- Intervals whose low end is not above their high end. -/
def Ordered : Interval → Prop
  | int low high => low ≤ high
  | bool low high => boolLe low high = true
  | _ => True

/-- Intervals whose ends are infinite outward or within the size. -/
def InSize (size : IntervalSize) : Interval → Prop
  | int low high => (low = .negInf ∨ low.Within size) ∧ (high = .posInf ∨ high.Within size)
  | _ => True

/-- Intervals that are not bottom and have their ends in order. -/
structure Proper (a : Interval) : Prop where
  ne_bottom : a ≠ bottom
  ordered : a.Ordered

/-- What the analysis stores: proper intervals within the size. -/
structure Stored (size : IntervalSize) (a : Interval) : Prop extends Proper a where
  inSize : a.InSize size

/-! ## Ranges -/

/-- Ends in order make a range. -/
theorem range_eq_int {low high : Bound} (ordered : low ≤ high) : range low high = int low high := by
  rw [range, if_neg]
  exact fun crossed => crossed ordered

/-- Ends that cross leave no value. -/
theorem range_eq_bottom {low high : Bound} (crossed : ¬ low ≤ high) : range low high = bottom :=
  if_pos crossed

/-- A range is in order, also when its ends cross. -/
theorem ordered_range (low high : Bound) : (range low high).Ordered := by
  by_cases inOrder : low ≤ high
  · rw [range_eq_int inOrder]
    exact inOrder
  · rw [range_eq_bottom inOrder]
    exact trivial

/-- A range of ends within the size is. -/
theorem inSize_range {size : IntervalSize} {low high : Bound} (below : low = .negInf ∨ low.Within size)
    (above : high = .posInf ∨ high.Within size) : (range low high).InSize size := by
  by_cases inOrder : low ≤ high
  · rw [range_eq_int inOrder]
    exact ⟨below, above⟩
  · rw [range_eq_bottom inOrder]
    exact trivial

/-- A range of booleans is in order, also when its ends cross. -/
theorem ordered_boolRange (low high : Bool) : (boolRange low high).Ordered := by
  unfold boolRange
  split
  · exact trivial
  · next notCrossed =>
    change boolLe low high = true
    cases low with
    | false => rfl
    | true =>
      cases high with
      | false => exact absurd rfl notCrossed
      | true => rfl

/-- A range of booleans has no integer ends. -/
theorem inSize_boolRange (size : IntervalSize) (low high : Bool) :
    (boolRange low high).InSize size := by
  unfold boolRange
  split <;> exact trivial

theorem proper_int {low high : Bound} (ordered : low ≤ high) : Proper (int low high) :=
  ⟨Interval.noConfusion, ordered⟩

theorem proper_range {low high : Bound} (ordered : low ≤ high) : Proper (range low high) := by
  rw [range_eq_int ordered]
  exact proper_int ordered

theorem proper_constant (n : Int64) : Proper (constant n) := proper_range (Bound.le_refl _)

theorem proper_boolean (b : Bool) : Proper (boolean b) := by
  cases b <;> exact ⟨Interval.noConfusion, rfl⟩

theorem proper_top : Proper top := ⟨Interval.noConfusion, trivial⟩

theorem stored_top (size : IntervalSize) : Stored size top := ⟨proper_top, trivial⟩

/-! ## Bringing into the size -/

/-- A bound between the ends of the size is within it. -/
theorem within_of_between {size : IntervalSize} {a : Bound} (low : .finite (-size.word) ≤ a)
    (high : a ≤ .finite size.word) : a.Within size := by
  cases a with
  | negInf => exact absurd low (Bound.not_finite_le_negInf _)
  | posInf => exact absurd high (Bound.not_posInf_le_finite _)
  | finite w =>
    rw [Bound.finite_le_finite, IntervalSize.toInt_neg_word] at low
    rw [Bound.finite_le_finite, IntervalSize.toInt_word] at high
    exact ⟨low, high⟩

/-- The ends of the size are in order. -/
theorem neg_word_le_word (size : IntervalSize) :
    Bound.finite (-size.word) ≤ Bound.finite size.word := by
  rw [Bound.finite_le_finite, IntervalSize.toInt_neg_word, IntervalSize.toInt_word]
  omega

/-- A low end brought into the size is there. -/
theorem within_normalizeLow (size : IntervalSize) (low : Bound) :
    normalizeLow size.word low = .negInf ∨ (normalizeLow size.word low).Within size := by
  unfold normalizeLow
  split
  · exact Or.inl rfl
  · next notBelow =>
    refine Or.inr ?_
    have above : .finite (-size.word) ≤ low := Decidable.of_not_not notBelow
    split
    · exact within_of_between (neg_word_le_word size) (Bound.le_refl _)
    · next notBeyond => exact within_of_between above (Decidable.of_not_not notBeyond)

/-- A high end brought into the size is there. -/
theorem within_normalizeHigh (size : IntervalSize) (high : Bound) :
    normalizeHigh size.word high = .posInf ∨ (normalizeHigh size.word high).Within size := by
  unfold normalizeHigh
  split
  · exact Or.inl rfl
  · next notBeyond =>
    refine Or.inr ?_
    have below : high ≤ .finite size.word := Decidable.of_not_not notBeyond
    split
    · exact within_of_between (Bound.le_refl _) (neg_word_le_word size)
    · next notBelow => exact within_of_between (Decidable.of_not_not notBelow) below

/-- Every interval brought into the size is there. -/
theorem inSize_normalize (size : IntervalSize) (a : Interval) : (normalize size a).InSize size := by
  cases a with
  | int low high => exact inSize_range (within_normalizeLow size low) (within_normalizeHigh size high)
  | bottom | bool _ _ | top => exact trivial

/-- An interval in order stays so when it is brought into the size. -/
theorem ordered_normalize (size : IntervalSize) {a : Interval} (ordered : a.Ordered) :
    (normalize size a).Ordered := by
  cases a with
  | int low high => exact ordered_range _ _
  | bool low high => exact ordered
  | bottom | top => exact trivial

/-- A proper interval brought into the size can be stored: its ends only move outward. -/
theorem stored_normalize (size : IntervalSize) {a : Interval} (proper : Proper a) :
    Stored size (normalize size a) := by
  refine ⟨⟨?_, ordered_normalize size proper.ordered⟩, inSize_normalize size a⟩
  cases a with
  | bottom => exact absurd rfl proper.ne_bottom
  | bool _ _ | top => exact Interval.noConfusion
  | int low high =>
    have outward : normalizeLow size.word low ≤ normalizeHigh size.word high :=
      Bound.le_trans (normalizeLow_le _ low)
        (Bound.le_trans proper.ordered (le_normalizeHigh _ high))
    rw [normalize, range_eq_int outward]
    exact Interval.noConfusion

/-! ## The lattice -/

/-- Booleans in order stay so in the hull of two intervals. -/
theorem boolLe_hull {l h l' h' : Bool} (left : boolLe l h = true) (right : boolLe l' h' = true) :
    boolLe (boolMin l l') (boolMax h h') = true := by
  revert l h l' h'
  decide

variable {size : IntervalSize}

/-- A join of stored intervals could be stored. -/
theorem Stored.join {a b : Interval} (left : Stored size a) (right : Stored size b) :
    Stored size (a.join b) := by
  obtain ⟨⟨proper, ordered⟩, inSize⟩ := left
  obtain ⟨⟨proper', ordered'⟩, inSize'⟩ := right
  cases a with
  | bottom => exact absurd rfl proper
  | top =>
    cases b with
    | bottom => exact absurd rfl proper'
    | int _ _ | bool _ _ | top => exact stored_top size
  | int low high =>
    cases b with
    | bottom => exact absurd rfl proper'
    | bool _ _ | top => exact stored_top size
    | int low' high' =>
      -- Each end of the hull is an end of one side.
      refine ⟨proper_int ?_, ?_, ?_⟩
      · exact Bound.le_trans (Bound.min_le_left low low')
          (Bound.le_trans ordered (Bound.le_max_left high high'))
      · rcases Bound.min_eq_or low low' with same | same <;> rw [same]
        · exact inSize.1
        · exact inSize'.1
      · rcases Bound.max_eq_or high high' with same | same <;> rw [same]
        · exact inSize.2
        · exact inSize'.2
  | bool low high =>
    cases b with
    | bottom => exact absurd rfl proper'
    | int _ _ | top => exact stored_top size
    | bool low' high' => exact ⟨⟨Interval.noConfusion, boolLe_hull ordered ordered'⟩, trivial⟩

/-- Widening of stored intervals could be stored: an end that moved becomes infinite outward. -/
theorem Stored.widen {a b : Interval} (left : Stored size a) (right : Stored size b) :
    Stored size (Interval.widen a b).1 := by
  unfold Interval.widen
  split
  · exact right
  · next low high low' high' =>
    obtain ⟨⟨-, ordered⟩, inSize⟩ := left
    refine ⟨proper_int ?_, ?_, ?_⟩
    · have below : (if low ≤ low' then low else .negInf) ≤ low := by
        split
        · exact Bound.le_refl low
        · exact Bound.negInf_le low
      have above : high ≤ (if high' ≤ high then high else .posInf) := by
        split
        · exact Bound.le_refl high
        · exact Bound.le_posInf high
      exact Bound.le_trans below (Bound.le_trans ordered above)
    · split
      · exact inSize.1
      · exact Or.inl rfl
    · split
      · exact inSize.2
      · exact Or.inl rfl
  · exact left.join right

/-- A meet of intervals in order is in order. -/
theorem ordered_meet {a b : Interval} (left : a.Ordered) (right : b.Ordered) :
    (a.meet b).Ordered := by
  cases a with
  | bottom => cases b <;> exact trivial
  | top => exact right
  | int low high =>
    cases b with
    | top => exact left
    | bottom | bool _ _ => exact trivial
    | int low' high' => exact ordered_range _ _
  | bool low high =>
    cases b with
    | top => exact left
    | bottom | int _ _ => exact trivial
    | bool low' high' => exact ordered_boolRange _ _

/-- A meet of intervals within the size is within it: each of its ends is an end of one side. -/
theorem inSize_meet {a b : Interval} (left : a.InSize size) (right : b.InSize size) :
    (a.meet b).InSize size := by
  cases a with
  | bottom => cases b <;> exact trivial
  | top => exact right
  | int low high =>
    cases b with
    | top => exact left
    | bottom | bool _ _ => exact trivial
    | int low' high' =>
      refine inSize_range ?_ ?_
      · rcases Bound.max_eq_or low low' with same | same <;> rw [same]
        · exact left.1
        · exact right.1
      · rcases Bound.min_eq_or high high' with same | same <;> rw [same]
        · exact left.2
        · exact right.2
  | bool low high =>
    cases b with
    | top => exact left
    | bottom | int _ _ => exact trivial
    | bool low' high' => exact inSize_boolRange size _ _

/-! ## Right-hand sides -/

/-- A shifted interval is proper: shifting keeps the order of its ends. -/
theorem proper_addConstant {y : Interval} (ordered : y.Ordered) (c : Int64) :
    Proper (addConstant y c).1 := by
  cases y with
  | int low high => exact proper_range (Bound.shift_le_shift ordered c)
  | bottom | bool _ _ | top => exact proper_top

theorem proper_subConstant {y : Interval} (ordered : y.Ordered) (c : Int64) :
    Proper (subConstant y c).1 := by
  unfold subConstant
  split
  · exact proper_addConstant ordered _
  · exact proper_top

/-- The rule for sums answers only intervals in order. -/
theorem proper_addVariables (y z : Interval) : Proper (addVariables y z).1 := by
  unfold addVariables
  split
  · split
    · exact proper_top
    · split
      · exact proper_top
      · split
        · exact proper_top
        · next notCrossed => exact proper_int (Decidable.of_not_not notCrossed)
  · exact proper_top

/-- The rule for products answers only intervals in order. -/
theorem proper_mulVariables (y z : Interval) : Proper (mulVariables y z).1 := by
  unfold mulVariables
  split
  · split
    · exact proper_top
    · split
      · exact proper_top
      · split
        · exact proper_top
        · next notCrossed =>
          split
          · exact proper_int (Decidable.of_not_not notCrossed)
          · exact proper_top
  · exact proper_top

theorem proper_foldConstants (op : ArithOp) (c d : Int64) : Proper (foldConstants op c d).1 := by
  unfold foldConstants
  split
  · exact proper_constant _
  · exact proper_top

variable {env : Env Interval}

/-- What the rules for right-hand sides answer is proper when the values of variables are. -/
theorem proper_evaluate (all : env.All (Stored size)) (e : Expr) :
    Proper (evaluate size e env).1 := by
  have value : ∀ name, Stored size (env.lookup (lattice size) name) := all.lookup (stored_top size)
  unfold evaluate
  dsimp only
  split
  · exact proper_constant _
  · exact proper_boolean _
  · exact (value _).toProper
  · exact proper_foldConstants _ _ _
  · exact proper_addConstant (value _).ordered _
  · exact proper_addConstant (value _).ordered _
  · exact proper_subConstant (value _).ordered _
  · exact proper_addVariables _ _
  · exact proper_mulVariables _ _
  · exact proper_top

/-! ## Conditions -/

/-- Intervals of the lattice of a size: in order and within it. -/
structure Bounded (size : IntervalSize) (a : Interval) : Prop where
  ordered : a.Ordered
  inSize : a.InSize size

/-- Bindings to intervals in order are in order and within the size. -/
theorem all_bind {listed : List (String × Interval)} {bindings : Env Interval}
    (said : bind size listed = some bindings) (ordered : ∀ binding ∈ listed, binding.2.Ordered) :
    bindings.All (Bounded size) := by
  intro name b found
  cases said
  obtain ⟨original, here, same⟩ := List.mem_map.mp (NameMap.mem_of_get?_ofList found)
  cases same
  exact ⟨ordered_normalize size (ordered original here), inSize_normalize size _⟩

theorem ordered_comparedTo (op : CompareOp) (c : Int64) : (comparedTo op c).1.Ordered := by
  cases op <;> simp only [comparedTo, ordered_range]

theorem ordered_comparedSides (op : CompareOp) (ly hy lx hx : Bound) :
    (comparedSides op ly hy lx hx).1.Ordered ∧ (comparedSides op ly hy lx hx).2.1.Ordered := by
  cases op <;> simp only [comparedSides, ordered_range, and_self]

/-- Nothing that is said binds nothing. -/
theorem all_nothing {V : Interval → Prop} {bindings : Env Interval}
    (said : nothing.1 = some bindings) : bindings.All V := by
  intro name b found
  have unbound : (bindings.get? name).isSome = false := not_bound_of_nothing said
  rw [found] at unbound
  cases unbound

/-- What a condition says of variables is in order and within the size. -/
theorem all_conditionBindings (all : env.All (Stored size)) {condition : Expr}
    {bindings : Env Interval} (said : (conditionBindings size condition env).1 = some bindings) :
    bindings.All (Bounded size) := by
  have value : ∀ name, (env.lookup (lattice size) name).Ordered := fun name =>
    (all.lookup (stored_top size) name).ordered
  unfold conditionBindings at said
  split at said
  · exact all_bind said (by simp [ordered_comparedTo])
  · exact all_bind said (by simp [ordered_comparedTo])
  · unfold compareVariables at said
    split at said
    · exact all_bind said (by simp [ordered_comparedSides])
    · exact all_nothing said
  · exact all_bind said (by simp [(proper_constant _).ordered])
  · exact all_bind said (by simp [(proper_constant _).ordered])
  · unfold equalVariables at said
    split at said
    · exact all_nothing said
    · exact all_bind said (by simp [value])
    · exact all_bind said (by simp [value])
    · exact all_nothing said
  · cases said
  · exact all_nothing said

/-- **The interval analysis keeps its values proper and within the size.** -/
theorem preserves_stored (size : IntervalSize) : (analysis size).Preserves (Stored size) where
  names := (sound_analysis size).names
  top := stored_top size
  join := Stored.join
  widen := Stored.widen
  transfer := by
    intro p env update all transferred
    rw [transfer_analysis] at transferred
    exact all_of_dispatch (fun e => stored_normalize size (proper_evaluate all e)) transferred
  narrow := by
    intro condition env bindings all said name a b here there feasible
    have stored := all name a here
    have bounded := all_conditionBindings all said name b there
    exact ⟨⟨feasible, ordered_meet stored.ordered bounded.ordered⟩,
      inSize_meet stored.inSize bounded.inSize⟩

end Interval

/-- **Every environment that a run stores binds exactly the variables of the function, each to a proper
value.** In the interval analysis these are intervals in order and within the size, and in the zero
analysis the values above bottom. -/
theorem runs_store_proper_environments (config : Config) (line : Nat) (called : String)
    (parameters : List String) (body : List Stmt) (source : Option String) :
    (∀ size, (Interval.analysis size).AlwaysStores config (.make line called parameters body source)
      (Env.BindsTo (Interval.Stored size)
        (FunctionDef.make line called parameters body source).variableSet.toList)) ∧
    Zero.analysis.AlwaysStores config (.make line called parameters body source)
      (Env.BindsTo (· ≠ Zero.bottom)
        (FunctionDef.make line called parameters body source).variableSet.toList) := by
  constructor
  · intro size
    have kept := (Interval.preserves_stored size).kept line called parameters body source
    exact kept.alwaysStores config
  · have kept := Zero.preserves_ne_bottom.kept line called parameters body source
    exact kept.alwaysStores config

end Dataflow
