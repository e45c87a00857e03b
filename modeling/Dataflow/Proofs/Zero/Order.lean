import Dataflow.Proofs.Analysis.LeastSolution
import Dataflow.Proofs.Zero.Soundness

/-!
# The zero analysis is monotone

No rule answers bottom, so bottom is never stored (`preserves_ne_bottom`). Above bottom the order is flat
below `unknown`: a larger value is the same one or `unknown`. So a rule is monotone as soon as it
answers `unknown` for `unknown`, and every rule does (`evaluate_rises`). At bottom the rules are not
monotone: the sum of bottom and a constant is `unknown` already.
-/

set_option autoImplicit false

namespace Dataflow.Zero

open Analysis Env

/-! ## The lattice -/

theorem atMost_iff {a b : Zero} :
    lattice.atMost a b = true ↔ a = b ∨ a = bottom ∨ b = unknown := by
  cases a <;> cases b <;> decide

theorem joinLaws_lattice : lattice.JoinLaws where
  bottom_le := fun a => atMost_iff.mpr (Or.inr (Or.inl rfl))
  trans := by
    intro a b c
    cases a <;> cases b <;> cases c <;> decide
  antisymm := by
    intro a b
    cases a <;> cases b <;> decide
  le_join_left := fun a b => (upperBound_zero_join a b).1
  le_join_right := fun a b => (upperBound_zero_join a b).2
  join_le := by
    intro a b c
    cases a <;> cases b <;> cases c <;> decide

theorem meetLaws_lattice : lattice.MeetLaws where
  meet_le_left := by
    intro a b
    cases a <;> cases b <;> decide
  meet_le_meet := by
    intro a b c d
    cases a <;> cases b <;> cases c <;> cases d <;> decide

theorem join_ne_bottom {a b : Zero} (left : a ≠ bottom) : a.join b ≠ bottom := by
  cases a <;> cases b <;> simp_all [join]

/-! ## No rule answers bottom -/

theorem addConstant_ne_bottom (y : Zero) (c : Int64) : (addConstant y c).1 ≠ bottom := by
  unfold addConstant
  split
  · split <;> exact Zero.noConfusion
  · split <;> exact Zero.noConfusion
  · exact Zero.noConfusion

theorem addVariables_ne_bottom (y z : Zero) : (addVariables y z).1 ≠ bottom := by
  unfold addVariables
  split <;> exact Zero.noConfusion

theorem foldConstants_ne_bottom (op : ArithOp) (c d : Int64) : (foldConstants op c d).1 ≠ bottom := by
  unfold foldConstants
  split
  · split <;> exact Zero.noConfusion
  · exact Zero.noConfusion

/-- From values above bottom, right-hand sides get values above bottom. -/
theorem evaluate_ne_bottom {env : Env Zero} (proper : env.All (· ≠ bottom)) (e : Expr) :
    (evaluate e env).1 ≠ bottom := by
  unfold evaluate
  split
  · split <;> exact Zero.noConfusion
  · exact Zero.noConfusion
  · exact proper.lookup Zero.noConfusion _
  · exact foldConstants_ne_bottom _ _ _
  · exact addVariables_ne_bottom _ _
  · exact addConstant_ne_bottom _ _
  · exact addConstant_ne_bottom _ _
  · exact Zero.noConfusion

/-- Every part of the analysis keeps values above bottom. -/
theorem preserves_ne_bottom : analysis.Preserves (· ≠ bottom) where
  names := sound_analysis.names
  top := Zero.noConfusion
  join := fun left _ => join_ne_bottom left
  widen := fun left _ => join_ne_bottom left
  transfer := by
    intro p env update proper transferred
    rw [transfer_analysis] at transferred
    exact all_of_dispatch (evaluate_ne_bottom proper) transferred
  narrow := fun _ _ _ _ _ _ _ feasible => feasible

/-! ## Every rule is monotone above bottom -/

/-- A value above bottom rises to itself and to `unknown`. -/
def Rises (a b : Zero) : Prop := a = b ∨ b = unknown

theorem Rises.atMost {a b : Zero} (rises : Rises a b) : lattice.atMost a b = true :=
  atMost_iff.mpr (rises.imp_right Or.inr)

theorem rises_of_atMost {a b : Zero} (proper : a ≠ bottom) (le : lattice.atMost a b = true) :
    Rises a b :=
  (atMost_iff.mp le).imp_right fun other => other.resolve_left proper

theorem Rises.addConstant {a b : Zero} (rises : Rises a b) (c : Int64) :
    Rises (Zero.addConstant a c).1 (Zero.addConstant b c).1 := by
  rcases rises with rfl | rfl
  · exact Or.inl rfl
  · exact Or.inr rfl

theorem Rises.addVariables {a b a' b' : Zero} (left : Rises a a') (right : Rises b b') :
    Rises (Zero.addVariables a b).1 (Zero.addVariables a' b').1 := by
  rcases left with rfl | rfl
  · rcases right with rfl | rfl
    · exact Or.inl rfl
    · cases a <;> exact Or.inr rfl
  · exact Or.inr rfl

/-- **The rules for right-hand sides are monotone** where the variables they read are bound above
bottom. -/
theorem evaluate_rises {env other : Env Zero} {names : List String} {e : Expr}
    (bindsTo : env.BindsTo (· ≠ bottom) names) (reads : ∀ name ∈ e.reads, name ∈ names)
    (below : env.Below lattice other) : Rises (evaluate e env).1 (evaluate e other).1 := by
  have value : ∀ name ∈ e.reads, Rises (env.lookup lattice name) (other.lookup lattice name) := by
    intro name read
    obtain ⟨a, here⟩ := Option.isSome_iff_exists.mp ((bindsTo.binds name).mpr (reads name read))
    obtain ⟨b, there, le⟩ := below name a here
    rw [Env.lookup, Env.lookup, here, there]
    exact rises_of_atMost (bindsTo.values name a here) le
  fun_cases evaluate e other with
  | case1 | case3 | case5 => exact Or.inl rfl
  | case2 c nonzero => exact Or.inl (by simp [evaluate, nonzero])
  | case4 y => exact value y (by simp [Expr.reads])
  | case6 y z => exact (value y (by simp [Expr.reads])).addVariables (value z (by simp [Expr.reads]))
  | case7 y c => exact (value y (by simp [Expr.reads])).addConstant c
  | case8 c y => exact (value y (by simp [Expr.reads])).addConstant c
  | case9 => exact Or.inr rfl

/-- An edge lets more through from a larger environment. What its condition says does not depend on
the environment, and it speaks of variables only, which are bound. -/
theorem covered_along {env other : Env Zero} {names : List String} {label : Label}
    (bindsTo : env.BindsTo (· ≠ bottom) names)
    (reads : ∀ name ∈ label.condition.reads, name ∈ names) (below : env.Below lattice other) :
    Covered lattice (analysis.along label env) (analysis.along label other) := by
  intro passed passes
  rcases along_cases passes with ⟨conditional, bindings, said, refined⟩ | ⟨plain, rfl⟩
  · have again : (analysis.narrow label.condition other).bindings = some bindings := said
    rw [along_of_narrow conditional again]
    refine below.refine? joinLaws_lattice meetLaws_lattice (fun name bound => ?_)
      (saysMore_refl lattice bindings) refined
    exact (bindsTo.binds name).mpr (reads name (mem_reads_of_conditionBindings said name bound))
  · exact ⟨other, along_of_plain plain other, below⟩

/-- **The zero analysis is monotone on environments that bind exactly the variables, all above
bottom.** -/
theorem monotonic_analysis (line : Nat) (called : String) (parameters : List String)
    (body : List Stmt) (source : Option String) :
    analysis.Monotonic (.make line called parameters body source)
      (Graph.build (.make line called parameters body source))
      (BindsTo (· ≠ bottom)
        (FunctionDef.make line called parameters body source).variableSet.toList) where
  kept := preserves_ne_bottom.kept line called parameters body source
  proper := fun bindsTo => bindsTo.values
  laws := joinLaws_lattice
  widen := fun _ _ => rfl
  total := by
    intro p env
    rw [transfer_analysis]
    exact exists_dispatch _ p env
  along := by
    intro e found env other bindsTo below
    refine covered_along bindsTo (fun name read => ?_) below
    exact mem_variableSet_of_mentioned (Graph.mem_mentionsAll_of_edge found read)
  transfer := by
    intro p visitable env other update update' bindsTo below transferred transferred'
    rw [transfer_analysis] at transferred transferred'
    refine below_of_dispatch (fun line target e statement => ?_) below transferred transferred'
    refine (evaluate_rises bindsTo (fun name read => ?_) below).atMost
    have mentioned : name ∈ p.statement.mentions := by simp [statement, Stmt.mentions, read]
    exact mem_variableSet_of_mentioned (Stmt.mem_mentionsAll_of_occurrence mentioned body
      (Graph.mem_occurrencesIn_of_visitable visitable))

end Dataflow.Zero
