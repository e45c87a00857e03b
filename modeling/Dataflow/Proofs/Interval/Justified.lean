import Dataflow.Proofs.Analysis.Justified
import Dataflow.Proofs.Interval.Order

/-!
# When interval results are justified

Sums, comparisons and the narrowing of edges are monotone on what the interval analysis stores: an
operand above a stored one has its ends in order and finite inward, so that sums of two low or two high
ends have a value. Products are not monotone. Zero times an unbounded interval has no value and is
answered by `top`, while larger operands give an interval again. That takes two different variables: a
square is monotone (`Contained.square`).

So the analysis of a body that assigns no product of two different variables rises (`rises_analysis`),
and its results justify every point they reach. With such a product a point can be reached through a
value that is given up later, and stays reached (`product_correction_not_justified`).
-/

set_option autoImplicit false

namespace Dataflow

/-- Products of two different variables. -/
def Expr.isMixedProduct : Expr → Bool
  | .arith (.var y) .mul (.var z) => decide (y ≠ z)
  | _ => false

/-- Assignments of a product of two different variables. -/
def Stmt.assignsMixedProduct : Stmt → Bool
  | .assign _ _ value => value.isMixedProduct
  | _ => false

namespace Interval

open Analysis Env

variable {size : IntervalSize}

/-! ## Right-hand sides -/

/-- A sum with a constant is monotone above bottom. -/
theorem Contained.addConstant {a b : Interval} (proper : a ≠ Interval.bottom) (inside : Contained a b)
    (c : Int64) : Contained (addConstant a c).1 (addConstant b c).1 := by
  cases inside with
  | bottom => exact absurd rfl proper
  | top => exact .top _
  | bool _ _ => exact .top _
  | int down up => exact contained_range (Bound.shift_le_shift down c) (Bound.shift_le_shift up c)

theorem Contained.subConstant {a b : Interval} (proper : a ≠ Interval.bottom) (inside : Contained a b)
    (c : Int64) : Contained (subConstant a c).1 (subConstant b c).1 := by
  unfold Interval.subConstant
  split
  · exact inside.addConstant proper _
  · exact .top _

/-- Ends in order, the low one below some word and the high one above some word. -/
structure Inward (low high : Bound) : Prop where
  ordered : low ≤ high
  low : low ≠ .posInf
  high : high ≠ .negInf

/-- The ends of a stored interval are finite inward. -/
theorem Stored.inward {low high : Bound} (stored : Stored size (int low high)) : Inward low high where
  ordered := stored.ordered
  low := by
    rintro rfl
    rcases stored.inSize.1 with infinite | within
    · cases infinite
    · exact within
  high := by
    rintro rfl
    rcases stored.inSize.2 with infinite | within
    · cases infinite
    · exact within

/-- Ends further out are finite inward, too. -/
theorem Inward.outward {low high low' high' : Bound} (inward : Inward low high) (down : low' ≤ low)
    (up : high ≤ high') : Inward low' high' where
  ordered := Bound.le_trans down (Bound.le_trans inward.ordered up)
  low := by
    rintro rfl
    exact inward.low (Bound.le_antisymm (Bound.le_posInf low) down)
  high := by
    rintro rfl
    exact inward.high (Bound.le_antisymm up (Bound.negInf_le high))

/-- The sum of intervals whose ends are finite inward has the sums of these as ends. -/
theorem exists_addVariables {ly hy lz hz : Bound} (left : Inward ly hy) (right : Inward lz hz) :
    ∃ low high, ly.add? lz = some low ∧ hy.add? hz = some high ∧
      (addVariables (int ly hy) (int lz hz)).1 = int low high := by
  obtain ⟨low, lowSum⟩ := Bound.exists_add?_of_ne_posInf left.low right.low
  obtain ⟨high, highSum⟩ := Bound.exists_add?_of_ne_negInf left.high right.high
  have ordered : low ≤ high := Bound.add?_le_add? left.ordered right.ordered lowSum highSum
  refine ⟨low, high, lowSum, highSum, ?_⟩
  simp only [addVariables, bounds?, lowSum, highSum]
  rw [if_neg (Bound.not_lt ordered)]

/-- **Sums of stored intervals are monotone.** -/
theorem Contained.addVariables {a b a' b' : Interval} (storedLeft : Stored size a)
    (storedRight : Stored size b) (left : Contained a a') (right : Contained b b') :
    Contained (addVariables a b).1 (addVariables a' b').1 := by
  cases left with
  | bottom => exact absurd rfl storedLeft.ne_bottom
  | top | bool _ _ => exact .top _
  | int down up =>
    cases right with
    | bottom => exact absurd rfl storedRight.ne_bottom
    | top | bool _ _ => exact .top _
    | int down' up' =>
      obtain ⟨_, _, lowSum, highSum, sum⟩ := exists_addVariables storedLeft.inward storedRight.inward
      obtain ⟨_, _, lowSum', highSum', sum'⟩ :=
        exists_addVariables (storedLeft.inward.outward down up) (storedRight.inward.outward down' up')
      rw [sum, sum']
      exact .int (Bound.add?_le_add? down down' lowSum' lowSum)
        (Bound.add?_le_add? up up' highSum highSum')

/-- The square of an interval from zero up has the squares of its ends. -/
theorem exists_square {low high : Bound} (nonneg : .finite 0 ≤ low) (ordered : low ≤ high) :
    ∃ lowSquare highSquare, low.mul? low = some lowSquare ∧ high.mul? high = some highSquare ∧
      (mulVariables (int low high) (int low high)).1 = int lowSquare highSquare := by
  have nonneg' : .finite 0 ≤ high := Bound.le_trans nonneg ordered
  obtain ⟨lowSquare, squared⟩ := Bound.exists_square nonneg
  obtain ⟨highSquare, squared'⟩ := Bound.exists_square nonneg'
  have inOrder : lowSquare ≤ highSquare := Bound.square_le_square nonneg ordered squared squared'
  refine ⟨lowSquare, highSquare, squared, squared', ?_⟩
  simp only [mulVariables, bounds?, squared, squared']
  rw [if_neg (Bound.not_lt inOrder)]
  simp [Bound.isNonNegative, nonneg, nonneg']

/-- The square of any other interval is unknown. -/
theorem square_eq_top {low high : Bound} (negative : ¬ Bound.finite 0 ≤ low) :
    (mulVariables (int low high) (int low high)).1 = top := by
  unfold mulVariables
  dsimp only [bounds?]
  split
  · rfl
  · split
    · rfl
    · split
      · rfl
      · simp [Bound.isNonNegative, negative]

/-- **Squares are monotone**: zero times an unbounded end does not occur. -/
theorem Contained.square {a b : Interval} (stored : Stored size a) (inside : Contained a b) :
    Contained (mulVariables a a).1 (mulVariables b b).1 := by
  cases inside with
  | bottom => exact absurd rfl stored.ne_bottom
  | top | bool _ _ => exact .top _
  | @int low high low' high' down up =>
    -- Only a low end below zero makes a square unknown, and then the larger one is.
    by_cases nonneg : .finite 0 ≤ low'
    · have fromZero : .finite 0 ≤ low := Bound.le_trans nonneg down
      have fromZero' : .finite 0 ≤ high := Bound.le_trans fromZero stored.ordered
      have ordered' : low' ≤ high' := (stored.inward.outward down up).ordered
      obtain ⟨_, _, lowSquare, highSquare, square⟩ := exists_square fromZero stored.ordered
      obtain ⟨_, _, lowSquare', highSquare', square'⟩ := exists_square nonneg ordered'
      rw [square, square']
      exact .int (Bound.square_le_square nonneg down lowSquare' lowSquare)
        (Bound.square_le_square fromZero' up highSquare highSquare')
    · rw [square_eq_top nonneg]
      exact .top _

/-- What a name of a stored environment is bound to is stored, and below what it is bound to above. -/
theorem lookup_rises {env other : Env Interval} {names : List String} {name : String}
    (bindsTo : env.BindsTo (Stored size) names) (listed : name ∈ names)
    (below : env.Below (lattice size) other) : Stored size (env.lookup (lattice size) name) ∧
      Contained (env.lookup (lattice size) name) (other.lookup (lattice size) name) := by
  obtain ⟨a, here⟩ := Option.isSome_iff_exists.mp ((bindsTo.binds name).mpr listed)
  obtain ⟨b, there, le⟩ := below name a here
  rw [Env.lookup, Env.lookup, here, there]
  exact ⟨bindsTo.values name a here, atMost_iff_contained.mp le⟩

variable {env other : Env Interval} {names : List String}

/-- **The rules for right-hand sides are monotone on stored environments**, products of two different
variables apart. -/
theorem evaluate_rises {e : Expr} (bindsTo : env.BindsTo (Stored size) names)
    (reads : ∀ name ∈ e.reads, name ∈ names) (below : env.Below (lattice size) other)
    (unmixed : e.isMixedProduct = false) :
    Contained (evaluate size e env).1 (evaluate size e other).1 := by
  have value : ∀ name ∈ e.reads, Stored size (env.lookup (lattice size) name) ∧
      Contained (env.lookup (lattice size) name) (other.lookup (lattice size) name) := by
    intro name read
    exact lookup_rises bindsTo (reads name read) below
  fun_cases evaluate size e other with
  | case1 | case2 | case4 => exact .refl _
  | case3 _ y => exact (value y (by simp [Expr.reads])).2
  | case5 _ y c | case6 _ c y =>
    obtain ⟨stored, inside⟩ := value y (by simp [Expr.reads])
    exact inside.addConstant stored.ne_bottom c
  | case7 _ y c =>
    obtain ⟨stored, inside⟩ := value y (by simp [Expr.reads])
    exact inside.subConstant stored.ne_bottom c
  | case8 _ y z =>
    obtain ⟨stored, inside⟩ := value y (by simp [Expr.reads])
    obtain ⟨stored', inside'⟩ := value z (by simp [Expr.reads])
    exact inside.addVariables stored stored' inside'
  | case9 _ y z =>
    -- The one rule that is not monotone: the operands have to be the same variable.
    have same : y = z := by simpa [Expr.isMixedProduct] using unmixed
    subst same
    obtain ⟨stored, inside⟩ := value y (by simp [Expr.reads])
    exact inside.square stored
  | case10 => exact .top _

/-! ## Conditions -/

theorem contained_comparedSides (op : CompareOp) {ly hy lx hx ly' hy' lx' hx' : Bound}
    (downLeft : ly' ≤ ly) (upLeft : hy ≤ hy') (downRight : lx' ≤ lx) (upRight : hx ≤ hx') :
    Contained (comparedSides op ly hy lx hx).1 (comparedSides op ly' hy' lx' hx').1 ∧
      Contained (comparedSides op ly hy lx hx).2.1 (comparedSides op ly' hy' lx' hx').2.1 := by
  cases op with
  | lt =>
    simp only [comparedSides]
    exact ⟨contained_range (Bound.le_refl _) (Bound.shift_le_shift upRight _),
      contained_range (Bound.shift_le_shift downLeft _) (Bound.le_refl _)⟩
  | gt =>
    simp only [comparedSides]
    exact ⟨contained_range (Bound.shift_le_shift downRight _) (Bound.le_refl _),
      contained_range (Bound.le_refl _) (Bound.shift_le_shift upLeft _)⟩
  | le =>
    simp only [comparedSides]
    exact ⟨contained_range (Bound.le_refl _) upRight, contained_range downLeft (Bound.le_refl _)⟩
  | ge =>
    simp only [comparedSides]
    exact ⟨contained_range downRight (Bound.le_refl _), contained_range (Bound.le_refl _) upLeft⟩

/-- Larger values for the same two variables say less. -/
theorem saysMore_bind {y x : String} {a b a' b' : Interval} {bindings bindings' : Env Interval}
    (left : Contained a a') (right : Contained b b')
    (said : bind size [(y, a), (x, b)] = some bindings)
    (said' : bind size [(y, a'), (x, b')] = some bindings') :
    SaysMore (lattice size) bindings bindings' := by
  cases said
  cases said'
  intro name d found
  simp only [List.map_cons, List.map_nil, NameMap.get?_ofList_pair] at found ⊢
  split at found
  · next here =>
    cases found
    exact ⟨_, if_pos here, atMost_iff_contained.mpr (right.normalize size)⟩
  · next elsewhere =>
    rw [if_neg elsewhere]
    split at found
    · next here =>
      cases found
      exact ⟨_, if_pos here, atMost_iff_contained.mpr (left.normalize size)⟩
    · cases found

/-- Nothing is the least that can be said. -/
theorem saysMore_nothing {bindings bindings' : Env Interval} (said : nothing.1 = some bindings') :
    SaysMore (lattice size) bindings bindings' := by
  intro name d found
  have unbound : (bindings'.get? name).isSome = false := not_bound_of_nothing said
  rw [found] at unbound
  cases unbound

/-- A comparison of variables says less of a larger environment. -/
theorem saysMore_compareVariables {y x : String} {op : CompareOp} {bindings : Env Interval}
    (left : Stored size (env.lookup (lattice size) y) ∧
      Contained (env.lookup (lattice size) y) (other.lookup (lattice size) y))
    (right : Stored size (env.lookup (lattice size) x) ∧
      Contained (env.lookup (lattice size) x) (other.lookup (lattice size) x))
    (said : (compareVariables size y op x env).1 = some bindings) :
    ∃ bindings', (compareVariables size y op x other).1 = some bindings' ∧
      SaysMore (lattice size) bindings bindings' := by
  unfold compareVariables at said ⊢
  obtain ⟨stored, inside⟩ := left
  obtain ⟨stored', inside'⟩ := right
  generalize env.lookup (lattice size) y = a at *
  generalize env.lookup (lattice size) x = b at *
  generalize other.lookup (lattice size) y = a' at *
  generalize other.lookup (lattice size) x = b' at *
  cases inside with
  | bottom => exact absurd rfl stored.ne_bottom
  | top | bool _ _ => exact ⟨_, rfl, saysMore_nothing rfl⟩
  | int downLeft upLeft =>
    cases inside' with
    | bottom => exact absurd rfl stored'.ne_bottom
    | top | bool _ _ => exact ⟨_, rfl, saysMore_nothing rfl⟩
    | int downRight upRight =>
      obtain ⟨first, second⟩ := contained_comparedSides op downLeft upLeft downRight upRight
      exact ⟨_, rfl, saysMore_bind first second said rfl⟩

/-- An equality of variables says nothing of values above bottom. -/
theorem equalVariables_eq_nothing {y x : String} (left : env.lookup (lattice size) y ≠ bottom)
    (right : env.lookup (lattice size) x ≠ bottom) : equalVariables size y x env = nothing := by
  unfold equalVariables
  split
  · rfl
  · next empty _ => exact absurd empty right
  · next empty _ => exact absurd empty left
  · rfl

theorem Contained.ne_bottom {a b : Interval} (inside : Contained a b) (proper : a ≠ Interval.bottom) :
    b ≠ Interval.bottom := by
  rintro rfl
  cases inside
  exact proper rfl

/-- **A condition says less of a larger environment.** -/
theorem saysMore_conditionBindings {condition : Expr} {bindings : Env Interval}
    (bindsTo : env.BindsTo (Stored size) names) (reads : ∀ name ∈ condition.reads, name ∈ names)
    (below : env.Below (lattice size) other)
    (said : (conditionBindings size condition env).1 = some bindings) :
    ∃ bindings', (conditionBindings size condition other).1 = some bindings' ∧
      SaysMore (lattice size) bindings bindings' := by
  have value : ∀ name ∈ condition.reads, Stored size (env.lookup (lattice size) name) ∧
      Contained (env.lookup (lattice size) name) (other.lookup (lattice size) name) := by
    intro name read
    exact lookup_rises bindsTo (reads name read) below
  fun_cases conditionBindings size condition other with
  | case3 y op x =>
    exact saysMore_compareVariables (value y (by simp [Expr.reads])) (value x (by simp [Expr.reads]))
      said
  | case6 y x =>
    obtain ⟨stored, inside⟩ := value y (by simp [Expr.reads])
    obtain ⟨stored', inside'⟩ := value x (by simp [Expr.reads])
    rw [equalVariables_eq_nothing (inside.ne_bottom stored.ne_bottom)
      (inside'.ne_bottom stored'.ne_bottom)]
    exact ⟨_, rfl, saysMore_nothing rfl⟩
  | case1 | case2 | case4 | case5 => exact ⟨bindings, said, saysMore_refl _ bindings⟩
  | case7 => cases said
  | case8 => exact ⟨_, rfl, saysMore_nothing rfl⟩

/-- An edge lets more through from a larger environment. -/
theorem covered_along {label : Label} (bindsTo : env.BindsTo (Stored size) names)
    (reads : ∀ name ∈ label.condition.reads, name ∈ names) (below : env.Below (lattice size) other) :
    Covered (lattice size) ((analysis size).along label env) ((analysis size).along label other) := by
  intro passed passes
  rcases along_cases passes with ⟨conditional, bindings, said, refined⟩ | ⟨plain, rfl⟩
  · obtain ⟨bindings', said', more⟩ := saysMore_conditionBindings bindsTo reads below said
    rw [along_of_narrow conditional said']
    refine below.refine? (joinLaws_lattice size) (meetLaws_lattice size) (fun name bound => ?_) more
      refined
    exact (bindsTo.binds name).mpr (reads name (mem_reads_of_conditionBindings said name bound))
  · exact ⟨other, along_of_plain plain other, below⟩

/-! ## The analysis -/

/-- **The interval analysis of a body that assigns no product of two different variables rises.** -/
theorem rises_analysis (size : IntervalSize) (line : Nat) (called : String) (parameters : List String)
    (body : List Stmt) (source : Option String)
    (unmixed : ∀ s ∈ Stmt.occurrencesIn body, s.assignsMixedProduct = false) :
    (analysis size).Rises (.make line called parameters body source)
      (Graph.build (.make line called parameters body source))
      (BindsTo (Stored size)
        (FunctionDef.make line called parameters body source).variableSet.toList) where
  kept := (preserves_stored size).kept line called parameters body source
  widen := atMost_widen_left
  mono := {
    kept := (preserves_stored size).joining.kept line called parameters body source
    proper := fun bindsTo name a found => (bindsTo.values name a found).ne_bottom
    laws := joinLaws_lattice size
    widen := fun _ _ => rfl
    total := by
      intro p env
      rw [transfer_joining, transfer_analysis]
      exact exists_dispatch _ p env
    along := by
      intro e found env other bindsTo below
      refine covered_along bindsTo (fun name read => ?_) below
      exact mem_variableSet_of_mentioned (Graph.mem_mentionsAll_of_edge found read)
    transfer := by
      intro p visitable env other update update' bindsTo below transferred transferred'
      rw [transfer_joining, transfer_analysis] at transferred transferred'
      have occurs := Graph.mem_occurrencesIn_of_visitable visitable
      refine below_of_dispatch (fun line target e statement => ?_) below transferred transferred'
      have alone : e.isMixedProduct = false := by
        have plain := unmixed p.statement occurs
        rwa [statement] at plain
      refine atMost_iff_contained.mpr (.normalize (evaluate_rises bindsTo (fun name read => ?_) below
        alone) size)
      have mentioned : name ∈ p.statement.mentions := by simp [statement, Stmt.mentions, read]
      exact mem_variableSet_of_mentioned (Stmt.mem_mentionsAll_of_occurrence mentioned body occurs) }

/-- **Interval results justify what they reach, products apart.** A reached point is the entry or follows
a reached point. It is justified when anything still arrives there, and always when the body assigns no
product of two different variables. -/
theorem interval_results_justify_reached_points (size : IntervalSize) (config : Config) (line : Nat)
    (called : String) (parameters : List String) (body : List Stmt) (source : Option String)
    (result : Result Interval)
    (ran : (analysis size).run config (.make line called parameters body source) = .ok result)
    (p : Point) (reached : result.isReached p = true) :
    ((Graph.build (.make line called parameters body source)).entry = some p ∨
      ∃ e ∈ (Graph.build (.make line called parameters body source)).incoming p,
        result.isReached e.source = true) ∧
    (((analysis size).recomputed (.make line called parameters body source)
        (Graph.build (.make line called parameters body source)) result p).isSome = true →
      (analysis size).Justified (.make line called parameters body source)
        (Graph.build (.make line called parameters body source)) result p) ∧
    ((∀ s ∈ Stmt.occurrencesIn body, s.assignsMixedProduct = false) →
      (analysis size).Justified (.make line called parameters body source)
        (Graph.build (.make line called parameters body source)) result p) := by
  refine ⟨reached_follows ran reached, fun arrives => ?_, fun unmixed => ?_⟩
  · obtain ⟨env, arrived⟩ := Option.isSome_iff_exists.mp arrives
    exact justified_of_recomputed ran arrived
  · exact (rises_analysis size line called parameters body source unmixed).justified ran reached

/-- A correction of `z`, for the case that it is negative. -/
def correction : Stmt :=
  .ifElse 5 (.compare (.var "z") .lt (.int 0)) [.assign 6 "z" (.int 1)] []

/-- The body of a function of `y` that counts `x` up from zero in a loop, computes `z` there and
corrects it. -/
def correctingBody (value : Expr) : List Stmt :=
  [.assign 2 "x" (.int 0),
    .loop 3 (.compare (.var "y") .gt (.int 0))
      [.assign 4 "z" value, correction, .assign 8 "x" (.arith (.var "x") .add (.int 1))]]

/-- The function with that body. -/
def correcting (value : Expr) : FunctionDef :=
  FunctionDef.make 1 "f" ["y"] (correctingBody value) none

def square : Expr := .arith (.var "x") .mul (.var "x")

def product : Expr := .arith (.var "x") .mul (.var "y")

/-- The correction of a square is justified: the squares still arrive there. -/
theorem square_correction_justified : ∃ result,
    (analysis .standard).run config (correcting square) = .ok result ∧
    result.isReached ⟨correction⟩ = true ∧
    (analysis .standard).Justified (correcting square) (Graph.build (correcting square)) result
      ⟨correction⟩ := by
  obtain ⟨result, ran⟩ : ∃ result, (analysis .standard).run config (correcting square) = .ok result :=
    exists_result_of_isOk (by decide +kernel)
  have reached : (match (analysis .standard).run config (correcting square) with
      | .ok result => result.isReached ⟨correction⟩
      | .error _ => false) = true := by decide +kernel
  rw [ran] at reached
  refine ⟨result, ran, reached, ?_⟩
  exact (interval_results_justify_reached_points .standard config 1 "f" ["y"] (correctingBody square)
    none result ran ⟨correction⟩ reached).2.2 (by decide +kernel)

/-- The product of `x` and `y` is unknown while `x` is zero, so that its correction is reached, and from
zero up later. Nothing arrives at the correction any more, but it stays reached. -/
theorem product_correction_not_justified : ∃ result,
    (analysis .standard).run config (correcting product) = .ok result ∧
    result.isReached ⟨.assign 6 "z" (.int 1)⟩ = true ∧
    ¬ (analysis .standard).Justified (correcting product) (Graph.build (correcting product)) result
      ⟨.assign 6 "z" (.int 1)⟩ := by
  obtain ⟨result, ran⟩ : ∃ result, (analysis .standard).run config (correcting product) = .ok result :=
    exists_result_of_isOk (by decide +kernel)
  have stale : (match (analysis .standard).run config (correcting product) with
      | .ok result => result.isReached ⟨.assign 6 "z" (.int 1)⟩ &&
        ((analysis .standard).recomputed (correcting product) (Graph.build (correcting product)) result
          ⟨.assign 6 "z" (.int 1)⟩).isNone
      | .error _ => false) = true := by decide +kernel
  -- A justified point has a recomputed input, and this one has none.
  rw [ran, Bool.and_eq_true, Option.isNone_iff_eq_none] at stale
  refine ⟨result, ran, stale.1, fun justified => ?_⟩
  obtain ⟨env, arrived, -⟩ := justified.input
  rw [stale.2] at arrived
  cases arrived

end Interval

end Dataflow
