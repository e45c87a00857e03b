import Dataflow.Proofs.Analysis.Budget
import Dataflow.Proofs.Graph.Descent
import Dataflow.Proofs.Interval.InSize

/-!
# The interval analysis ends

The transfers of the interval analysis are not monotone, so the output of a point may go down as well
as up. But a loop head that is visited again joins or widens, and both only go up. Since stored
intervals are within the size, they can rise only so often, and so can the output of a loop head.
Between loop heads the rank of points falls along every edge, so a price by rank makes a visit of any
other point worth all the visits that it causes until loop heads are reached
(`interval_runs_converge`).
-/

set_option autoImplicit false

namespace Dataflow.Interval

open Analysis Concrete Env

variable {size : IntervalSize}

/-! ## Joins and widening go up -/

theorem contained_refl (a : Interval) : contained a a = true := by
  cases a with
  | bottom | top => rfl
  | int low high => simp [contained, Bound.le_refl]
  | bool low high => cases low <;> cases high <;> rfl

/-- The order of the lattice is containment. -/
theorem atMost_iff {a b : Interval} : (lattice size).atMost a b = true ↔ contained a b = true := by
  by_cases same : a = b
  · simp [ValueLattice.atMost, same, contained_refl]
  · simp [ValueLattice.atMost, lattice, below, same]

theorem contained_int {low high low' high' : Bound} :
    contained (int low high) (int low' high') = true ↔ low' ≤ low ∧ high ≤ high' := by
  simp [contained]

theorem atMost_join_left (a b : Interval) : (lattice size).atMost a (a.join b) = true := by
  rw [atMost_iff]
  cases a with
  | bottom => rfl
  | top => cases b <;> rfl
  | int low high =>
    cases b with
    | bottom => exact contained_refl _
    | bool _ _ | top => rfl
    | int low' high' =>
      exact contained_int.mpr ⟨Bound.min_le_left low low', Bound.le_max_left high high'⟩
  | bool low high =>
    cases b with
    | bottom => exact contained_refl _
    | int _ _ | top => rfl
    | bool low' high' => cases low <;> cases high <;> cases low' <;> cases high' <;> rfl

theorem atMost_widen_left (a b : Interval) : (lattice size).atMost a (widen a b).1 = true := by
  unfold widen
  split
  · exact atMost_iff.mpr rfl
  · next low high low' high' =>
    refine atMost_iff.mpr (contained_int.mpr ⟨?_, ?_⟩)
    · split
      · exact Bound.le_refl low
      · exact Bound.negInf_le low
    · split
      · exact Bound.le_refl high
      · exact Bound.le_posInf high
  · exact atMost_join_left a b

/-! ## How far an interval can rise -/

/-- How far a low end within the size can still go down. -/
def lowHeight (size : IntervalSize) : Bound → Nat
  | .finite w => (w.toInt + size.toNat + 1).toNat
  | _ => 0

/-- How far a high end within the size can still go up. -/
def highHeight (size : IntervalSize) : Bound → Nat
  | .finite w => (size.toNat + 1 - w.toInt).toNat
  | _ => 0

/-- How far an interval within the size can still rise. -/
def height (size : IntervalSize) : Interval → Nat
  | int low high => lowHeight size low + highHeight size high + 1
  | bool low high => low.toNat + (!high).toNat + 1
  | _ => 0

theorem lowHeight_le {low : Bound} (inSize : low = .negInf ∨ low.Within size) :
    lowHeight size low ≤ 2 * size.toNat + 1 := by
  cases low with
  | negInf | posInf => exact Nat.zero_le _
  | finite w =>
    have within := inSize.resolve_left Bound.noConfusion
    simp only [Bound.Within] at within
    simp only [lowHeight]
    omega

theorem highHeight_le {high : Bound} (inSize : high = .posInf ∨ high.Within size) :
    highHeight size high ≤ 2 * size.toNat + 1 := by
  cases high with
  | negInf | posInf => exact Nat.zero_le _
  | finite w =>
    have within := inSize.resolve_left Bound.noConfusion
    simp only [Bound.Within] at within
    simp only [highHeight]
    omega

/-- A low end that goes down gets lower. -/
theorem lowHeight_lt {low low' : Bound} (inSize : low = .negInf ∨ low.Within size)
    (inSize' : low' = .negInf ∨ low'.Within size) (down : low' ≤ low) (moved : low' ≠ low) :
    lowHeight size low' < lowHeight size low := by
  cases low with
  | negInf => cases low' <;> simp_all [Bound.Within]
  | posInf => simp [Bound.Within] at inSize
  | finite w =>
    have within := inSize.resolve_left Bound.noConfusion
    simp only [Bound.Within] at within
    cases low' with
    | negInf =>
      simp only [lowHeight]
      omega
    | posInf => simp [Bound.Within] at inSize'
    | finite w' =>
      have differ : w'.toInt ≠ w.toInt := fun same => moved (congrArg _ (Int64.toInt_inj.mp same))
      rw [Bound.finite_le_finite] at down
      simp only [lowHeight]
      omega

/-- A high end that goes up gets lower. -/
theorem highHeight_lt {high high' : Bound} (inSize : high = .posInf ∨ high.Within size)
    (inSize' : high' = .posInf ∨ high'.Within size) (up : high ≤ high') (moved : high ≠ high') :
    highHeight size high' < highHeight size high := by
  cases high with
  | posInf => cases high' <;> simp_all [Bound.Within]
  | negInf => simp [Bound.Within] at inSize
  | finite w =>
    have within := inSize.resolve_left Bound.noConfusion
    simp only [Bound.Within] at within
    cases high' with
    | posInf =>
      simp only [highHeight]
      omega
    | negInf => simp [Bound.Within] at inSize'
    | finite w' =>
      have differ : w.toInt ≠ w'.toInt := fun same => moved (congrArg _ (Int64.toInt_inj.mp same))
      rw [Bound.finite_le_finite] at up
      simp only [highHeight]
      omega

/-- An interval of integers that grows gets lower: one of its ends moved, and none moved inward. -/
theorem height_int_lt {low high low' high' : Bound} (inSize : (int low high).InSize size)
    (inSize' : (int low' high').InSize size) (down : low' ≤ low) (up : high ≤ high')
    (grown : int low high ≠ int low' high') :
    height size (int low' high') < height size (int low high) := by
  simp only [height]
  by_cases sameLow : low' = low
  · subst sameLow
    have moved : high ≠ high' := fun same => grown (congrArg (int low') same)
    have lower := highHeight_lt inSize.2 inSize'.2 up moved
    omega
  · have lower := lowHeight_lt inSize.1 inSize'.1 down sameLow
    by_cases sameHigh : high = high'
    · subst sameHigh
      omega
    · have lower' := highHeight_lt inSize.2 inSize'.2 up sameHigh
      omega

/-- The interval of both booleans is lower than that of one. -/
theorem height_bool_lt {low high low' high' : Bool}
    (le : contained (bool low high) (bool low' high') = true)
    (grown : bool low high ≠ bool low' high') :
    height size (bool low' high') < height size (bool low high) := by
  cases low <;> cases high <;> cases low' <;> cases high' <;> simp_all [contained, boolLe, height]

/-- **Intervals within the size rise only so often**: each end takes at most every place in the size. -/
theorem descends_height (size : IntervalSize) :
    Descends (lattice size) (Stored size) (height size) (4 * size.toNat + 3) where
  le_cap := by
    intro a stored
    cases a with
    | bottom | top => exact Nat.zero_le _
    | int low high =>
      have low := lowHeight_le stored.inSize.1
      have high := highHeight_le stored.inSize.2
      simp only [height]
      omega
    | bool low high =>
      have low := Bool.toNat_le low
      have high := Bool.toNat_le (!high)
      simp only [height]
      omega
  lt_of_rise := by
    intro a b stored stored' le differ
    rw [atMost_iff] at le
    cases a with
    | bottom => exact absurd rfl stored.ne_bottom
    | top => cases b <;> simp_all [contained]
    | int low high =>
      cases b with
      | bottom | bool _ _ => cases le
      | top => exact Nat.succ_pos _
      | int low' high' =>
        obtain ⟨down, up⟩ := contained_int.mp le
        exact height_int_lt stored.inSize stored'.inSize down up differ
    | bool low high =>
      cases b with
      | bottom | int _ _ => cases le
      | top => exact Nat.succ_pos _
      | bool low' high' => exact height_bool_lt le differ

/-! ## Paying for a run -/

/-- Prices by rank, and credit at loop heads only: as often as their outputs can rise. -/
def tariff (size : IntervalSize) (f : FunctionDef) : Tariff Interval where
  price := priceByRank (Graph.build f) (Graph.rank f)
  credit := fun p last =>
    if (Graph.build f).isLoopHead p then
      allowance (height size) (4 * size.toNat + 3) f.variableSet.toList last
    else 0
  positive := fun _ => Nat.pow_pos (Nat.succ_pos _)

/-- The output of a loop head only rises, however it settles. -/
theorem covered_of_settled {g : Graph} {p : Point} {last : Option (Env Interval)}
    {new output : Env Interval} (head : g.isLoopHead p = true)
    (settled : Settled (analysis size) g p last new output) :
    Covered (lattice size) last (some output) := by
  cases settled with
  | replaced first =>
    rw [first head]
    exact covered_none _ _
  | joined _ found =>
    rw [found, join_eq_combine]
    exact covered_some (below_combine_left fun _ a b _ _ => atMost_join_left a b)
  | widened _ found =>
    rw [found]
    exact covered_some (below_combine_left fun _ a b _ _ => atMost_widen_left a b)

/-- The tariff pays for every run over a function in which no statement occurs twice. -/
theorem paysFor_tariff {f : FunctionDef} (distinct : (Stmt.occurrencesIn f.body).Nodup)
    (kept : (analysis size).Kept f (Graph.build f) (BindsTo (Stored size) f.variableSet.toList))
    (config : Config) : (tariff size f).PaysFor (analysis size) config f (Graph.build f)
      (Keeps (BindsTo (Stored size) f.variableSet.toList) (Graph.build f)) where
  total := by
    intro p env
    rw [transfer_analysis]
    exact exists_dispatch _ p env
  initial := fun isEntry => keeps_initial _ isEntry
  advance := fun _ keeps advance => kept.advance keeps advance
  pays := by
    intro entry p run input output update isEntry keeps queued arrived transferred settled changed
    simp only [Tariff.Pays, tariff]
    cases head : (Graph.build f).isLoopHead p with
    | true =>
      -- A loop head pays with the rise of its output.
      have before := keeps.outputs p
      have after := kept.output keeps queued arrived transferred settled
      have rises := covered_of_settled head settled
      exact Or.inl (allowance_lt (descends_height size) before after rises changed)
    | false =>
      -- Any other point pays with its rank.
      refine Or.inr ⟨Nat.le_refl _, spread_lt_priceByRank fun e found source => ?_⟩
      subst source
      exact Graph.rank_lt_of_edge distinct found (Graph.isLoop_of_edge found head)

/-- **The interval analysis always ends, given enough visits.** For every function in which no statement
occurs twice there is a number of visits with which every run has a result, whatever the strategy. -/
theorem interval_runs_converge (size : IntervalSize) (line : Nat) (called : String)
    (parameters : List String) (body : List Stmt) (source : Option String)
    (distinct : (Stmt.occurrencesIn body).Nodup) :
    ∃ bound, ∀ config : Config, bound ≤ config.maxIterations →
      ∃ result, (analysis size).run config (.make line called parameters body source) =
        .ok result := by
  have kept := (preserves_stored size).kept line called parameters body source
  refine ⟨(tariff size (.make line called parameters body source)).bound
    (Graph.build (.make line called parameters body source)), fun config enough => ?_⟩
  obtain ⟨result, ran, -⟩ := (paysFor_tariff distinct kept config).exists_result enough
  exact ⟨result, ran⟩

/-- The counting loop has five different statements, so its interval analysis ends. -/
theorem countUp_converges : (Stmt.occurrencesIn countBody).Nodup ∧
    ∃ bound, ∀ config : Config, bound ≤ config.maxIterations →
      ∃ result, (analysis .standard).run config countUp = .ok result := by
  have distinct : (Stmt.occurrencesIn countBody).Nodup := by decide +kernel
  exact ⟨distinct, interval_runs_converge .standard 1 "countUp" ["n"] countBody none distinct⟩

end Dataflow.Interval
