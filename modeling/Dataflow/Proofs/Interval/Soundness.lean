import Dataflow.Interval.Analysis
import Dataflow.Proofs.Analysis.Soundness
import Dataflow.Proofs.Interval.Bound

/-!
# The interval analysis is sound

`Interval.Covers` says which values an interval stands for. Bringing an interval into the size only
moves its ends outward, joins and widening cover what they combine, and every rule for right-hand sides
and conditions covers the values it speaks of. So for every size the results of the analysis describe
every execution of every function (`interval_results_describe_executions`).
-/

set_option autoImplicit false

namespace Dataflow.Interval

open Concrete Analysis

/-- The values that an interval stands for: the integers or the booleans between its ends. -/
def Covers : Interval → Value → Prop
  | bottom, _ => False
  | int low high, .int n => low ≤ .finite n ∧ .finite n ≤ high
  | bool low high, .bool b => boolLe low b = true ∧ boolLe b high = true
  | top, _ => True
  | _, _ => False

/-! ## Ranges and sizes -/

/-- A range covers the integers between its bounds. -/
theorem covers_range {low high : Bound} {n : Int64} (above : low ≤ .finite n)
    (below : .finite n ≤ high) : Covers (range low high) (.int n) := by
  have proper : ¬ high < low := fun crossed => crossed (Bound.le_trans above below)
  rw [range, if_neg proper]
  exact ⟨above, below⟩

/-- A constant covers its integer. -/
theorem covers_constant (n : Int64) : Covers (constant n) (.int n) :=
  covers_range (Bound.le_refl _) (Bound.le_refl _)

/-- A boolean constant covers its boolean. -/
theorem covers_boolean (b : Bool) : Covers (boolean b) (.bool b) := by
  cases b <;> exact ⟨rfl, rfl⟩

/-- A low bound only moves down into the size. -/
theorem normalizeLow_le (n : Int64) (low : Bound) : normalizeLow n low ≤ low := by
  unfold normalizeLow
  split
  · exact Bound.negInf_le low
  · split
    · next beyond => exact Bound.le_of_not_le beyond
    · exact Bound.le_refl low

/-- A high bound only moves up into the size. -/
theorem le_normalizeHigh (n : Int64) (high : Bound) : high ≤ normalizeHigh n high := by
  unfold normalizeHigh
  split
  · exact Bound.le_posInf high
  · split
    · next beyond => exact Bound.le_of_not_le beyond
    · exact Bound.le_refl high

/-- An interval brought into the size covers what it covered. -/
theorem covers_normalize (size : IntervalSize) {a : Interval} {v : Value} (covers : Covers a v) :
    Covers (normalize size a) v := by
  cases a with
  | bottom => exact covers
  | bool low high => exact covers
  | top => exact trivial
  | int low high =>
    cases v with
    | bool b => exact covers.elim
    | int n =>
      exact covers_range (Bound.le_trans (normalizeLow_le _ low) covers.1)
        (Bound.le_trans covers.2 (le_normalizeHigh _ high))

/-! ## The lattice -/

/-- The hull of two intervals of integers covers what either of them does. -/
theorem covers_hull {low high low' high' : Bound} {n : Int64}
    (either : Covers (int low high) (.int n) ∨ Covers (int low' high') (.int n)) :
    Covers (int (low.min low') (high.max high')) (.int n) := by
  rcases either with ⟨above, below⟩ | ⟨above, below⟩
  · exact ⟨Bound.le_trans (Bound.min_le_left _ _) above,
      Bound.le_trans below (Bound.le_max_left _ _)⟩
  · exact ⟨Bound.le_trans (Bound.min_le_right _ _) above,
      Bound.le_trans below (Bound.le_max_right _ _)⟩

/-- The hull of two intervals of booleans covers what either of them does. -/
theorem covers_boolHull {low high low' high' b : Bool}
    (either : Covers (bool low high) (.bool b) ∨ Covers (bool low' high') (.bool b)) :
    Covers (bool (boolMin low low') (boolMax high high')) (.bool b) := by
  simp only [Covers] at either ⊢
  revert low high low' high' b
  decide

/-- A join covers what either side does. -/
theorem covers_join {a b : Interval} {v : Value} (either : Covers a v ∨ Covers b v) :
    Covers (a.join b) v := by
  cases a with
  | bottom => exact either.resolve_left id
  | top => cases b <;> exact trivial
  | int low high =>
    cases b with
    | bottom => exact either.resolve_right id
    | top | bool _ _ => exact trivial
    | int low' high' =>
      cases v with
      | bool _ => exact (either.elim id id).elim
      | int n => exact covers_hull either
  | bool low high =>
    cases b with
    | bottom => exact either.resolve_right id
    | top | int _ _ => exact trivial
    | bool low' high' =>
      cases v with
      | int _ => exact (either.elim id id).elim
      | bool b => exact covers_boolHull either

/-- The common part of two intervals of booleans covers what both do. -/
theorem covers_boolRange {low high low' high' b : Bool} (left : Covers (bool low high) (.bool b))
    (right : Covers (bool low' high') (.bool b)) :
    Covers (boolRange (boolMax low low') (boolMin high high')) (.bool b) := by
  cases b <;> cases low <;> cases high <;> cases low' <;> cases high' <;>
    simp_all [Covers, boolLe, boolRange, boolMax, boolMin]

/-- A meet covers what both sides do. -/
theorem covers_meet {a b : Interval} {v : Value} (left : Covers a v) (right : Covers b v) :
    Covers (a.meet b) v := by
  cases a with
  | bottom => exact left.elim
  | top => exact right
  | int low high =>
    cases b with
    | bottom => exact right.elim
    | top => exact left
    | bool _ _ => cases v <;> trivial
    | int low' high' =>
      cases v with
      | bool _ => exact left.elim
      | int n =>
        exact covers_range (Bound.max_le left.1 right.1) (Bound.le_min left.2 right.2)
  | bool low high =>
    cases b with
    | bottom => exact right.elim
    | top => exact left
    | int _ _ => cases v <;> trivial
    | bool low' high' =>
      cases v with
      | int _ => exact left.elim
      | bool b => exact covers_boolRange left right

/-- Widening covers what the new side does: an end that moved outward becomes infinite. -/
theorem covers_widen {a b : Interval} {v : Value} (covers : Covers b v) : Covers (widen a b).1 v := by
  unfold widen
  split
  · exact covers
  · cases v with
    | bool _ => exact covers.elim
    | int n =>
      -- Each end is the last one, which is then as far out as the new one, or infinite.
      refine ⟨?_, ?_⟩ <;> split
      · next stays => exact Bound.le_trans stays covers.1
      · exact Bound.negInf_le _
      · next stays => exact Bound.le_trans covers.2 stays
      · exact Bound.le_posInf _
  · exact covers_join (Or.inr covers)

/-! ## Right-hand sides -/

/-- An interval with bounds that covers an integer has it between them. -/
theorem between_of_bounds? {a : Interval} {low high : Bound} {n : Int64}
    (bounds : a.bounds? = some (low, high)) (covers : Covers a (.int n)) :
    low ≤ .finite n ∧ .finite n ≤ high := by
  cases a with
  | int low' high' =>
    cases bounds
    exact covers
  | bottom | bool _ _ | top => cases bounds

/-- The sum of a covered integer and a constant. -/
theorem covers_addConstant {y : Interval} {m c r : Int64} (covers : Covers y (.int m))
    (sum : r.toInt = m.toInt + c.toInt) : Covers (addConstant y c).1 (.int r) := by
  unfold addConstant
  split
  · next low high bounds =>
    obtain ⟨above, below⟩ := between_of_bounds? bounds covers
    exact covers_range (Bound.shift_le_finite above (by omega))
      (Bound.finite_le_shift below (by omega))
  · exact trivial

/-- The difference of a covered integer and a constant. -/
theorem covers_subConstant {y : Interval} {m c r : Int64} (covers : Covers y (.int m))
    (difference : r.toInt = m.toInt - c.toInt) : Covers (subConstant y c).1 (.int r) := by
  unfold subConstant
  split
  · next negated found =>
    have opposite := Checked.ofInt?_eq_some_iff.mp found
    exact covers_addConstant covers (by omega)
  · exact trivial

/-- The sum of two covered integers. -/
theorem covers_addVariables {y z : Interval} {m n r : Int64} (left : Covers y (.int m))
    (right : Covers z (.int n)) (sum : r.toInt = m.toInt + n.toInt) :
    Covers (addVariables y z).1 (.int r) := by
  unfold addVariables
  split
  · next ly hy lz hz bounds bounds' =>
    obtain ⟨above, below⟩ := between_of_bounds? bounds left
    obtain ⟨above', below'⟩ := between_of_bounds? bounds' right
    split
    · exact trivial
    · next low lows =>
      split
      · exact trivial
      · next high highs =>
        split
        · exact trivial
        · exact ⟨Bound.add?_le_finite lows above above' sum,
            Bound.finite_le_add? highs below below' sum⟩
  · exact trivial

/-- The product of two covered integers. The rule asks for ends from zero up, so the integers are from
zero up, too. -/
theorem covers_mulVariables {y z : Interval} {m n r : Int64} (left : Covers y (.int m))
    (right : Covers z (.int n)) (product : r.toInt = m.toInt * n.toInt) :
    Covers (mulVariables y z).1 (.int r) := by
  unfold mulVariables
  split
  · next ly hy lz hz bounds bounds' =>
    obtain ⟨above, below⟩ := between_of_bounds? bounds left
    obtain ⟨above', below'⟩ := between_of_bounds? bounds' right
    split
    · exact trivial
    · next low lows =>
      split
      · exact trivial
      · next high highs =>
        split
        · exact trivial
        · split
          · next nonneg =>
            simp only [List.all_cons, Bool.and_eq_true, Bound.isNonNegative,
              decide_eq_true_eq] at nonneg
            obtain ⟨fromZero, -, fromZero', -⟩ := nonneg
            refine ⟨Bound.mul?_le_finite lows fromZero fromZero' above above' product,
              Bound.finite_le_mul? highs ?_ ?_ below below' product⟩
            · exact Bound.zero_le_finite.mp (Bound.le_trans fromZero above)
            · exact Bound.zero_le_finite.mp (Bound.le_trans fromZero' above')
          · exact trivial
  · exact trivial

/-- A folded operation. -/
theorem covers_foldConstants {op : ArithOp} {c d r : Int64} (result : op.evaluate c d = some r) :
    Covers (foldConstants op c d).1 (.int r) := by
  rw [foldConstants, result]
  exact covers_constant r

variable {size : IntervalSize} {env : Env Interval} {σ : Store} {W : World} {calls after : List Call}

/-- What an environment says of a variable covers its value. -/
theorem covers_lookup (contains : Contains Covers env σ) (name : String) :
    Covers (env.lookup (lattice size) name) (σ name) :=
  contains.lookup (fun _ => trivial) name

/-- **The rules for right-hand sides are sound.** -/
theorem covers_evaluate {e : Expr} {v : Value} (contains : Contains Covers env σ)
    (evaluated : eval W σ e calls = some (v, after)) : Covers (evaluate size e env).1 v := by
  have value : ∀ {name : String} {w : Value}, σ name = w → Covers (env.lookup (lattice size) name) w :=
    fun same => same ▸ covers_lookup contains _
  unfold evaluate
  dsimp only
  split
  · cases evaluated
    exact covers_constant _
  · cases evaluated
    exact covers_boolean _
  · cases evaluated
    exact value rfl
  · obtain ⟨m, mid, n, r, left, right, result, rfl⟩ := eval_arith_iff.mp evaluated
    cases left
    cases right
    exact covers_foldConstants result
  · obtain ⟨m, mid, n, r, left, right, sum, rfl⟩ := eval_arith_iff.mp evaluated
    cases right
    exact covers_addConstant (value (eval_var_iff.mp left).1) (Checked.ofInt?_eq_some_iff.mp sum)
  · obtain ⟨m, mid, n, r, left, right, sum, rfl⟩ := eval_arith_iff.mp evaluated
    cases left
    have total := Checked.ofInt?_eq_some_iff.mp sum
    exact covers_addConstant (value (eval_var_iff.mp right).1) (by omega)
  · obtain ⟨m, mid, n, r, left, right, difference, rfl⟩ := eval_arith_iff.mp evaluated
    cases right
    exact covers_subConstant (value (eval_var_iff.mp left).1)
      (Checked.ofInt?_eq_some_iff.mp difference)
  · obtain ⟨m, mid, n, r, left, right, sum, rfl⟩ := eval_arith_iff.mp evaluated
    exact covers_addVariables (value (eval_var_iff.mp left).1) (value (eval_var_iff.mp right).1)
      (Checked.ofInt?_eq_some_iff.mp sum)
  · obtain ⟨m, mid, n, r, left, right, product, rfl⟩ := eval_arith_iff.mp evaluated
    exact covers_mulVariables (value (eval_var_iff.mp left).1) (value (eval_var_iff.mp right).1)
      (Checked.ofInt?_eq_some_iff.mp product)
  · exact trivial

/-! ## Conditions -/

theorem toInt_one : (1 : Int64).toInt = 1 := rfl

theorem toInt_neg_one : (-1 : Int64).toInt = -1 := rfl

/-- The integers that compare with a constant. -/
theorem covers_comparedTo {op : CompareOp} {n c : Int64} (holds : op.holds n c = true) :
    Covers (comparedTo op c).1 (.int n) := by
  have one := toInt_one
  have minus := toInt_neg_one
  cases op <;>
    simp only [CompareOp.holds, decide_eq_true_eq, Int64.lt_iff_toInt_lt,
      Int64.le_iff_toInt_le] at holds
  case lt =>
    exact covers_range (Bound.negInf_le _) (Bound.finite_le_shift (Bound.le_refl (.finite c)) (by omega))
  case gt =>
    exact covers_range (Bound.shift_le_finite (Bound.le_refl (.finite c)) (by omega)) (Bound.le_posInf _)
  case le => exact covers_range (Bound.negInf_le _) (Bound.finite_le_finite.mpr holds)
  case ge => exact covers_range (Bound.finite_le_finite.mpr holds) (Bound.le_posInf _)

/-- Two integers that compare are among those that each can be by the bounds of the other. -/
theorem covers_comparedSides {op : CompareOp} {m n : Int64} {ly hy lx hx : Bound}
    (left : ly ≤ .finite m ∧ .finite m ≤ hy) (right : lx ≤ .finite n ∧ .finite n ≤ hx)
    (holds : op.holds m n = true) :
    Covers (comparedSides op ly hy lx hx).1 (.int m) ∧
      Covers (comparedSides op ly hy lx hx).2.1 (.int n) := by
  have one := toInt_one
  have minus := toInt_neg_one
  cases op <;>
    simp only [CompareOp.holds, decide_eq_true_eq, Int64.lt_iff_toInt_lt,
      Int64.le_iff_toInt_le] at holds
  case lt =>
    exact ⟨covers_range (Bound.negInf_le _) (Bound.finite_le_shift right.2 (by omega)),
      covers_range (Bound.shift_le_finite left.1 (by omega)) (Bound.le_posInf _)⟩
  case gt =>
    exact ⟨covers_range (Bound.shift_le_finite right.1 (by omega)) (Bound.le_posInf _),
      covers_range (Bound.negInf_le _) (Bound.finite_le_shift left.2 (by omega))⟩
  case le =>
    exact ⟨covers_range (Bound.negInf_le _)
        (Bound.le_trans (Bound.finite_le_finite.mpr holds) right.2),
      covers_range (Bound.le_trans left.1 (Bound.finite_le_finite.mpr holds)) (Bound.le_posInf _)⟩
  case ge =>
    exact ⟨covers_range (Bound.le_trans right.1 (Bound.finite_le_finite.mpr holds))
        (Bound.le_posInf _),
      covers_range (Bound.negInf_le _)
        (Bound.le_trans (Bound.finite_le_finite.mpr holds) left.2)⟩

/-- Something is said about variables, and it is true of them. -/
def Truthful (said : Said) (σ : Store) : Prop :=
  ∃ bindings, said.1 = some bindings ∧ Contains Covers bindings σ

/-- Nothing that is said is true. -/
theorem truthful_nothing (σ : Store) : Truthful nothing σ := by
  refine ⟨NameMap.empty, rfl, fun name a found => ?_⟩
  rw [NameMap.get?_empty] at found
  cases found

/-- Bindings to intervals that cover the values are true, also when brought into the size. -/
theorem truthful_bind {bindings : List (String × Interval)} {rule : ConditionRule}
    (listed : ∀ binding ∈ bindings, Covers binding.2 (σ binding.1)) :
    Truthful (bind size bindings, rule) σ := by
  refine ⟨_, rfl, contains_ofList fun binding found => ?_⟩
  obtain ⟨original, here, rfl⟩ := List.mem_map.mp found
  exact covers_normalize size (listed original here)

/-- What an order comparison of two variables says. -/
theorem truthful_compareVariables {y x : String} {op : CompareOp} {m n : Int64}
    (contains : Contains Covers env σ) (left : σ y = .int m) (right : σ x = .int n)
    (holds : op.holds m n = true) : Truthful (compareVariables size y op x env) σ := by
  unfold compareVariables
  split
  · next ly hy lx hx bounds bounds' =>
    have covered := covers_comparedSides
      (between_of_bounds? bounds (left ▸ covers_lookup contains y))
      (between_of_bounds? bounds' (right ▸ covers_lookup contains x)) holds
    refine truthful_bind fun binding found => ?_
    simp only [List.mem_cons, List.not_mem_nil, or_false] at found
    rcases found with rfl | rfl
    · exact left ▸ covered.1
    · exact right ▸ covered.2
  · exact truthful_nothing σ

/-- What equality of two variables says: neither side is without values, so nothing. -/
theorem truthful_equalVariables (y x : String) (contains : Contains Covers env σ) :
    Truthful (equalVariables size y x env) σ := by
  have left : Covers (env.lookup (lattice size) y) (σ y) := covers_lookup contains y
  have right : Covers (env.lookup (lattice size) x) (σ x) := covers_lookup contains x
  unfold equalVariables
  split
  · exact truthful_nothing σ
  -- In both of these a variable would have no value at all.
  · next empty _ =>
    rw [empty] at right
    exact right.elim
  · next empty _ =>
    rw [empty] at left
    exact left.elim
  · exact truthful_nothing σ

/-- **What a condition that holds says about variables is true of them.** -/
theorem truthful_conditionBindings {condition : Expr} (contains : Contains Covers env σ)
    (holds : eval W σ condition calls = some (.bool true, after)) :
    Truthful (conditionBindings size condition env) σ := by
  unfold conditionBindings
  split
  · obtain ⟨m, mid, n, left, right, compares⟩ := eval_compare_true_iff.mp holds
    cases right
    refine truthful_bind ?_
    simp [(eval_var_iff.mp left).1, covers_comparedTo compares]
  · obtain ⟨m, mid, n, left, right, compares⟩ := eval_compare_true_iff.mp holds
    cases left
    rw [← holds_flip] at compares
    refine truthful_bind ?_
    simp [(eval_var_iff.mp right).1, covers_comparedTo compares]
  · obtain ⟨m, mid, n, left, right, compares⟩ := eval_compare_true_iff.mp holds
    exact truthful_compareVariables contains (eval_var_iff.mp left).1 (eval_var_iff.mp right).1
      compares
  · obtain ⟨a, mid, b, left, right, same⟩ := eval_equality_iff.mp holds
    cases right
    have equal : a = .int _ := of_decide_eq_true (Value.bool.inj same).symm
    refine truthful_bind ?_
    simp [(eval_var_iff.mp left).1, equal, covers_constant]
  · obtain ⟨a, mid, b, left, right, same⟩ := eval_equality_iff.mp holds
    cases left
    have equal : .int _ = b := of_decide_eq_true (Value.bool.inj same).symm
    refine truthful_bind ?_
    simp [(eval_var_iff.mp right).1, ← equal, covers_constant]
  · exact truthful_equalVariables _ _ contains
  · simp [eval] at holds
  · exact truthful_nothing σ

/-- Bindings are about the listed variables. -/
theorem mem_of_bind {listed : List (String × Interval)} {bindings : Env Interval} {name : String}
    (said : bind size listed = some bindings) (bound : (bindings.get? name).isSome = true) :
    name ∈ listed.map (·.1) := by
  cases said
  obtain ⟨a, found⟩ := Option.isSome_iff_exists.mp bound
  obtain ⟨original, here, same⟩ := List.mem_map.mp (NameMap.mem_of_get?_ofList found)
  exact List.mem_map.mpr ⟨original, here, (Prod.mk.inj same).1⟩

/-- Nothing is said about no variable. -/
theorem not_bound_of_nothing {bindings : Env Interval} {name : String}
    (said : nothing.1 = some bindings) : (bindings.get? name).isSome = false := by
  cases said
  rfl

/-- What a condition says is about variables that it reads. -/
theorem mem_reads_of_conditionBindings {condition : Expr} {bindings : Env Interval}
    (said : (conditionBindings size condition env).1 = some bindings) (name : String)
    (bound : (bindings.get? name).isSome = true) : name ∈ condition.reads := by
  have silent : nothing.1 = some bindings → name ∈ condition.reads := fun said => by
    rw [not_bound_of_nothing said] at bound
    cases bound
  unfold conditionBindings at said
  split at said
  case h_3 y op x =>
    unfold compareVariables at said
    split at said
    · simpa [Expr.reads] using mem_of_bind said bound
    · exact silent said
  case h_6 y x =>
    unfold equalVariables at said
    split at said
    · exact silent said
    · simpa [Expr.reads] using mem_of_bind said bound
    · simpa [Expr.reads] using mem_of_bind said bound
    · exact silent said
  case h_7 => cases said
  case h_8 => exact silent said
  all_goals simpa [Expr.reads] using mem_of_bind said bound

/-- The transfer of the analysis goes by its rules for right-hand sides. -/
theorem transfer_analysis (size : IntervalSize) : (analysis size).transfer =
    dispatch (assignmentFlow fun e env =>
      (normalize size (evaluate size e env).1, (evaluate size e env).2.name)) :=
  rfl

/-- The parts of the interval analysis respect the meaning of its values. -/
theorem sound_analysis (size : IntervalSize) : (analysis size).Sound Covers where
  names := by
    refine ⟨fun transferred => ?_, mem_reads_of_conditionBindings⟩
    rw [transfer_analysis] at transferred
    exact mem_mentions_of_dispatch transferred
  top := fun _ => trivial
  bottom := fun _ => id
  join_left := fun covers => covers_join (Or.inl covers)
  join_right := fun covers => covers_join (Or.inr covers)
  meet := covers_meet
  widen := covers_widen
  transfer := by
    intro W p env update σ σ' calls after transferred contains executed
    rw [transfer_analysis] at transferred
    refine contains_of_dispatch ?_ transferred contains executed
    exact fun evaluated => covers_normalize size (covers_evaluate contains evaluated)
  narrow := fun contains holds => truthful_conditionBindings contains holds

/-- **The interval analysis is sound.** For every size, where an execution of a function arrives at a
statement with some store, the result has an input at its point that describes the store and an output
that describes the store after it. So a point without an output is never arrived at. -/
theorem interval_results_describe_executions (size : IntervalSize) (config : Config) (line : Nat)
    (called : String) (parameters : List String) (body : List Stmt) (source : Option String)
    (result : Result Interval)
    (ran : (analysis size).run config (.make line called parameters body source) = .ok result)
    (W : World) (start : Store) (s : Stmt) (rest : List Stmt) (σ : Store) (calls : List Call)
    (reached : Reaches W (.start body start) ⟨s :: rest, σ, calls⟩) :
    ∃ input output, result.inputs.get? ⟨s⟩ = some input ∧
      Describes Covers (FunctionDef.variablesOf parameters body).toList input σ ∧
      result.outputs.get? ⟨s⟩ = some output ∧
      ∀ t, Concrete.Step W ⟨s :: rest, σ, calls⟩ t →
        Describes Covers (FunctionDef.variablesOf parameters body).toList output t.store :=
  (sound_analysis size).result ran reached

/-- The counting loop with size five: when control comes back to it with `x` being one, the input of
the loop describes that store. -/
theorem countLoop_interval_describes : ∃ result input,
    (analysis 5).run config countUp = .ok result ∧ result.inputs.get? ⟨countLoop⟩ = some input ∧
    Describes Covers (FunctionDef.variablesOf ["n"] countBody).toList input
      ((ones.set "x" (.int 0)).set "x" (.int 1)) := by
  obtain ⟨result, ran⟩ : ∃ result, (analysis 5).run config countUp = .ok result :=
    exists_result_of_isOk (by decide +kernel)
  obtain ⟨input, _, stored, described, -⟩ :=
    interval_results_describe_executions 5 config 1 "countUp" ["n"] countBody none result ran quiet
      ones countLoop _ _ _ reaches_countLoop
  exact ⟨result, input, ran, stored, described⟩

end Dataflow.Interval
