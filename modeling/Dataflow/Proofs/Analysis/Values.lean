import Dataflow.Proofs.Analysis.Soundness

/-!
# The values that a run stores

An analysis `Preserves` a property of abstract values when the top value has it and joins, widening,
transfers and the narrowing along an edge keep it. Then, at every moment of a run over a function with
computed variables, every stored environment binds exactly these variables, each to a value with the
property (`Preserves.kept`, `Kept.alwaysStores`).

A meet may leave the property, but only towards bottom: an edge on which a value becomes bottom lets
nothing through, so bottom itself is never stored.
-/

set_option autoImplicit false

namespace Dataflow.Analysis

variable {α : Type} [DecidableEq α]

/-- The parts of an analysis keep a property of abstract values. -/
structure Preserves (A : Analysis α) (V : α → Prop) : Prop where
  names : A.Scoped
  top : V A.lattice.top
  join : ∀ {a b : α}, V a → V b → V (A.lattice.join a b)
  widen : ∀ {a b : α}, V a → V b → V (A.widen a b).1
  transfer : ∀ {p : Point} {env : Env α} {update : Update α}, env.All V →
    A.transfer p env = .ok update → update.bindings.All V
  /-- What a condition says of a bound value keeps the property unless it leaves no value. -/
  narrow : ∀ {condition : Expr} {env bindings : Env α}, env.All V →
    (A.narrow condition env).bindings = some bindings → ∀ {name : String} {a b : α},
    env.get? name = some a → bindings.get? name = some b →
    A.lattice.meet a b ≠ A.lattice.bottom → V (A.lattice.meet a b)

omit [DecidableEq α] in
/-- A transfer by rules for right-hand sides binds what the rules answer. -/
theorem all_of_dispatch {V : α → Prop} {evaluate : Expr → Env α → α × String} {p : Point}
    {env : Env α} {update : Update α} (answers : ∀ e, V (evaluate e env).1)
    (transferred : dispatch (assignmentFlow evaluate) p env = .ok update) :
    update.bindings.All V := by
  intro name a found
  rcases dispatch_cases transferred with ⟨line, target, value, -, bindings⟩ | ⟨-, bindings⟩
  · rw [bindings, NameMap.get?_ofList_singleton] at found
    split at found
    · cases found
      exact answers value
    · cases found
  · rw [bindings, NameMap.get?_empty] at found
    cases found

/-- Every environment that a run over a function's graph stores has a property, at every moment of the
run and in its result. -/
structure AlwaysStores (A : Analysis α) (config : Config) (f : FunctionDef) (P : Env α → Prop) :
    Prop where
  moments : ∀ (entry : Point) (run : Run α), (Graph.build f).entry = some entry →
    Relation.ReflTransGen (A.Advances config f (Graph.build f) entry) (.initial entry) run →
    OnAll P run.inputs ∧ OnAll P run.outputs
  results : ∀ result : Result α, A.run config f = .ok result →
    OnAll P result.inputs ∧ OnAll P result.outputs

/-- A property that every part of a visit keeps is one that a run always stores. -/
theorem Kept.alwaysStores {A : Analysis α} {f : FunctionDef} {P : Env α → Prop}
    (kept : A.Kept f (Graph.build f) P) (config : Config) : A.AlwaysStores config f P where
  moments := by
    intro entry run isEntry advances
    have keeps := kept.advances isEntry advances
    exact ⟨keeps.inputs, keeps.outputs⟩
  results := fun _ ran => kept.stored ran

variable {A : Analysis α} {V : α → Prop}

/-- An edge lets through only values with the property. A refinement meets the bound values with what
the condition says, and succeeds only when none of them becomes bottom. -/
theorem Preserves.along (preserves : A.Preserves V) {names : List String} {label : Label}
    {env passed : Env α} (bindsTo : env.BindsTo V names)
    (spoken : ∀ name ∈ label.condition.reads, name ∈ names)
    (passes : A.along label env = some passed) : passed.All V := by
  intro name c found
  rcases along_cases passes with ⟨-, bindings, narrowed, passes⟩ | ⟨-, rfl⟩
  · obtain ⟨proper, refined⟩ := (Env.refine?_eq_some_iff A.lattice).mp passes
    rw [refined name] at found
    cases said : bindings.get? name with
    | none =>
      rw [said] at found
      exact bindsTo.values name c found
    | some b =>
      -- The condition speaks of variables only, so the name was bound before.
      have listed : name ∈ names :=
        spoken name (preserves.names.narrow narrowed name (by simp [said]))
      obtain ⟨a, before⟩ := Option.isSome_iff_exists.mp ((bindsTo.binds name).mpr listed)
      have feasible := proper name b said
      rw [said] at found
      rw [before] at feasible found
      cases found
      exact preserves.narrow bindsTo.values narrowed before said feasible
  · exact bindsTo.values name c found

/-- **Binding exactly the computed variables, each to a value with a preserved property, is kept by
every run over a function's own graph.** -/
theorem Preserves.kept (preserves : A.Preserves V) (line : Nat) (called : String)
    (parameters : List String) (body : List Stmt) (source : Option String) :
    A.Kept (.make line called parameters body source)
      (Graph.build (.make line called parameters body source))
      (Env.BindsTo V (FunctionDef.make line called parameters body source).variableSet.toList) := by
  have names := preserves.names.kept line called parameters body source
  refine ⟨⟨names.seed, Env.all_uniform preserves.top _⟩, ?_, ?_, ?_, ?_⟩
  · intro e found env passed bindsTo passes
    refine ⟨names.along e found bindsTo.binds passes, preserves.along bindsTo ?_ passes⟩
    intro name read
    exact mem_variableSet_of_mentioned (Graph.mem_mentionsAll_of_edge found read)
  · intro env other left right
    exact ⟨names.join left.binds right.binds, left.values.join right.values preserves.join⟩
  · intro last new left right
    exact ⟨names.widen left.binds right.binds, left.values.combine right.values preserves.widen⟩
  · intro p visitable env update bindsTo transferred
    exact ⟨names.transfer visitable bindsTo.binds transferred,
      bindsTo.values.updated (preserves.transfer bindsTo.values transferred)⟩

end Dataflow.Analysis
