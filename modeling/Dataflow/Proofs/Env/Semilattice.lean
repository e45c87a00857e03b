import Dataflow.Proofs.Interval.Laws
import Dataflow.Proofs.Zero.Order

/-!
# Environments as a semilattice

The order of environments counts an unbound name as bottom. It therefore compares what environments are
`worth`, name by name (`atMost_iff_worth_le`), and a join is worth the join of the two sides
(`worth_join`). So the laws of the order are those of functions into the lattice, and environments below
each other may still differ in bindings to bottom. The equations of joins hold of the maps themselves
(`environments_form_semilattice`).

Look-up counts an unbound name as top. A join keeps the value of a name that only one side binds, so in
this reading it is above both sides only when that value is top (`join_above_lookups`).
-/

set_option autoImplicit false

namespace Dataflow

/-- The zero lattice is a lattice on all of its values. -/
theorem Zero.orderLaws_lattice : lattice.OrderLaws fun _ => True where
  toJoinLaws := joinLaws_lattice
  bottom_mem := trivial
  top_mem := trivial
  join_mem _ _ := trivial
  meet_mem _ _ := trivial
  le_top _ := atMost_iff.mpr (Or.inr (Or.inr rfl))
  meet_le_left := meetLaws_lattice.meet_le_left
  meet_le_right := by
    intro a b
    cases a <;> cases b <;> decide
  le_meet := by
    intro a b c _
    cases a <;> cases b <;> cases c <;> decide
  below_irrefl a := by cases a <;> rfl

namespace Env

open NameMap ValueLattice

variable {α : Type} {L : ValueLattice α} {V : α → Prop} {a b c : Env α}

/-! ## Joins as maps -/

theorem join_comm (laws : L.LawfulOn V) (left : a.All V) (right : b.All V) :
    a.join L b = b.join L a := by
  refine ext_get? fun name => ?_
  rw [get?_join, get?_join]
  cases found : a.get? name with
  | none => cases b.get? name <;> rfl
  | some x =>
    cases found' : b.get? name with
    | none => rfl
    | some y => exact congrArg some (laws.join_comm (left name x found) (right name y found'))

theorem join_assoc (laws : L.LawfulOn V) (first : a.All V) (second : b.All V) (third : c.All V) :
    (a.join L b).join L c = a.join L (b.join L c) := by
  refine ext_get? fun name => ?_
  rw [get?_join, get?_join, get?_join, get?_join]
  cases found : a.get? name with
  | none => rfl
  | some x =>
    cases found' : b.get? name with
    | none => cases c.get? name <;> rfl
    | some y =>
      cases found'' : c.get? name with
      | none => rfl
      | some z =>
        exact congrArg some (laws.join_assoc (first name x found) (second name y found')
          (third name z found''))

theorem join_self (laws : L.LawfulOn V) (all : a.All V) : a.join L a = a := by
  refine ext_get? fun name => ?_
  rw [get?_join]
  cases found : a.get? name with
  | none => rfl
  | some x => exact congrArg some (laws.join_self (all name x found))

/-! ## What environments are worth -/

theorem All.getD_bottom (laws : L.LawfulOn V) (all : a.All V) (name : String) :
    V ((a.get? name).getD L.bottom) := by
  cases found : a.get? name with
  | none => exact laws.bottom_mem
  | some x => exact all name x found

/-- The value of each name, bottom when it is unbound. -/
def worth (laws : L.LawfulOn V) (a : Env α) (all : a.All V) (name : String) : laws.Values :=
  ⟨(a.get? name).getD L.bottom, all.getD_bottom laws name⟩

/-- **A join is worth the join of its sides.** -/
theorem worth_join (laws : L.LawfulOn V) (left : a.All V) (right : b.All V) :
    worth laws (a.join L b) (left.join right laws.join_mem) = worth laws a left ⊔ worth laws b right := by
  refine funext fun name => LawfulOn.Values.ext ?_
  change ((a.join L b).get? name).getD L.bottom =
    L.join ((a.get? name).getD L.bottom) ((b.get? name).getD L.bottom)
  rw [get?_join]
  cases found : a.get? name with
  | none =>
    have rest := right.getD_bottom laws name
    exact ((laws.join_comm laws.bottom_mem rest).trans (laws.join_bottom rest)).symm
  | some x =>
    cases b.get? name with
    | none => exact (laws.join_bottom (left name x found)).symm
    | some y => rfl

/-- Environments that are worth the same bind the same values above bottom. -/
theorem get?_of_worth_eq {laws : L.LawfulOn V} {left : a.All V} {right : b.All V}
    (same : worth laws a left = worth laws b right) {name : String} {x : α} (proper : x ≠ L.bottom)
    (found : a.get? name = some x) : b.get? name = some x := by
  have value := congrArg LawfulOn.Values.value (congrFun same name)
  simp only [worth, found, Option.getD_some] at value
  cases found' : b.get? name with
  | none =>
    rw [found'] at value
    exact absurd value proper
  | some y =>
    rw [found'] at value
    exact congrArg some value.symm

variable [DecidableEq α]

/-- **The order of environments is the order of what they are worth.** -/
theorem atMost_iff_worth_le (laws : L.LawfulOn V) (left : a.All V) (right : b.All V) :
    a.atMost L b = true ↔ worth laws a left ≤ worth laws b right := by
  rw [atMost_iff, Pi.le_def]
  refine forall_congr' fun name => ?_
  rw [← laws.atMost_iff_le]
  cases found : a.get? name with
  | none =>
    -- An unbound name asks for nothing, and bottom is below everything.
    refine iff_of_true (by simp) ?_
    simp only [worth, found, Option.getD_none]
    exact laws.bottom_atMost (right.getD_bottom laws name)
  | some x =>
    simp only [Option.some.injEq, forall_eq', worth, found, Option.getD_some]
    cases b.get? name with
    | none =>
      rw [Option.getD_none, laws.atMost_bottom_iff (left name x found)]
      exact decide_eq_true_iff
    | some y => exact Iff.rfl

/-! ## The semilattice -/

/-- An operator on the two values of a name gives a value above both. -/
def RisesOn (L : ValueLattice α) (V : α → Prop) (f : String → α → α → α) : Prop :=
  ∀ (name : String) {x y : α}, V x → V y →
    L.atMost x (f name x y) = true ∧ L.atMost y (f name x y) = true

/-- Up to bindings to bottom, the environments whose values have a property are a join semilattice; their
joins satisfy the equations of one as maps. -/
structure SemilatticeOn (L : ValueLattice α) (V : α → Prop) : Prop where
  refl : ∀ a : Env α, a.atMost L a = true
  trans : ∀ {a b c : Env α}, a.All V → b.All V → c.All V → a.atMost L b = true →
    b.atMost L c = true → a.atMost L c = true
  /-- Environments below each other bind the same names to the same values, but for bottom. -/
  antisymm : ∀ {a b : Env α}, a.All V → b.All V → a.atMost L b = true → b.atMost L a = true →
    ∀ (name : String) (x : α), x ≠ L.bottom → (a.get? name = some x ↔ b.get? name = some x)
  join_mem : ∀ {a b : Env α}, a.All V → b.All V → (a.join L b).All V
  le_join_left : ∀ {a b : Env α}, a.All V → b.All V → a.atMost L (a.join L b) = true
  le_join_right : ∀ {a b : Env α}, a.All V → b.All V → b.atMost L (a.join L b) = true
  join_le : ∀ {a b c : Env α}, a.All V → b.All V → c.All V → a.atMost L c = true →
    b.atMost L c = true → (a.join L b).atMost L c = true
  join_comm : ∀ {a b : Env α}, a.All V → b.All V → a.join L b = b.join L a
  join_assoc : ∀ {a b c : Env α}, a.All V → b.All V → c.All V →
    (a.join L b).join L c = a.join L (b.join L c)
  join_self : ∀ {a : Env α}, a.All V → a.join L a = a
  le_combine : ∀ {f : String → α → α → α}, RisesOn L V f → ∀ {a b : Env α}, a.All V → b.All V →
    a.atMost L (a.combine f b) = true ∧ b.atMost L (a.combine f b) = true

/-- **Environments over a lattice form a join semilattice**, up to bindings to bottom and whatever names
they bind. -/
theorem environments_form_semilattice (laws : L.LawfulOn V) : SemilatticeOn L V where
  refl a := (below_refl L a).atMost
  trans first second third below below' := by
    rw [atMost_iff_worth_le laws first second] at below
    rw [atMost_iff_worth_le laws second third] at below'
    exact (atMost_iff_worth_le laws first third).mpr (below.trans below')
  antisymm left right below below' := by
    rw [atMost_iff_worth_le laws left right] at below
    rw [atMost_iff_worth_le laws right left] at below'
    have same := below.antisymm below'
    intro name x proper
    exact ⟨get?_of_worth_eq same proper, get?_of_worth_eq same.symm proper⟩
  join_mem left right := left.join right laws.join_mem
  le_join_left left right := by
    rw [atMost_iff_worth_le laws left (left.join right laws.join_mem), worth_join laws left right]
    exact le_sup_left
  le_join_right left right := by
    rw [atMost_iff_worth_le laws right (left.join right laws.join_mem), worth_join laws left right]
    exact le_sup_right
  join_le first second third below below' := by
    rw [atMost_iff_worth_le laws first third] at below
    rw [atMost_iff_worth_le laws second third] at below'
    rw [atMost_iff_worth_le laws (first.join second laws.join_mem) third, worth_join laws first second]
    exact sup_le below below'
  join_comm := join_comm laws
  join_assoc := join_assoc laws
  join_self := join_self laws
  le_combine rises a b left right := by
    constructor
    · refine (below_combine_left fun name x y found found' => ?_).atMost
      exact (rises name (left name x found) (right name y found')).1
    · refine (below_combine_right fun name x y found found' => ?_).atMost
      exact (rises name (left name x found) (right name y found')).2

/-- What is known of `x` before a branch. -/
def started : Env Interval := ofList [("x", .int (.finite 0) (.finite 0))]

/-- What is known after the branch: `x` is another number, and `y` has no value. -/
def stepped : Env Interval := ofList [("x", .int (.finite 5) (.finite 5)), ("y", .bottom)]

theorem started_ordered : started.All Interval.Ordered := by
  intro name x found
  have listed := mem_of_get?_ofList found
  simp only [List.mem_singleton, Prod.mk.injEq] at listed
  obtain ⟨-, rfl⟩ := listed
  exact Bound.le_refl _

theorem stepped_ordered : stepped.All Interval.Ordered := by
  intro name x found
  have listed := mem_of_get?_ofList found
  simp only [List.mem_cons, List.not_mem_nil, Prod.mk.injEq, or_false] at listed
  rcases listed with ⟨-, rfl⟩ | ⟨-, rfl⟩
  · exact Bound.le_refl _
  · trivial

/-- Two environments with different names, one of them bound to bottom, and an operator that forgets `x`
and joins everything else. -/
theorem started_stepped_semilattice :
    (Interval.lattice 0).LawfulOn Interval.Ordered ∧
    started.join (Interval.lattice 0) stepped = stepped.join (Interval.lattice 0) started ∧
    started.atMost (Interval.lattice 0) (started.join (Interval.lattice 0) stepped) = true ∧
    stepped.atMost (Interval.lattice 0)
      (started.combine (fun name x y => if name = "x" then .top else x.join y) stepped) = true := by
  have laws := Interval.orderLaws_lattice 0
  have semilattice := environments_form_semilattice laws.lawfulOn
  refine ⟨laws.lawfulOn, semilattice.join_comm started_ordered stepped_ordered,
    semilattice.le_join_left started_ordered stepped_ordered,
    (semilattice.le_combine ?_ started_ordered stepped_ordered).2⟩
  intro name x y _ _
  dsimp only
  split
  · exact ⟨laws.le_top x, laws.le_top y⟩
  · exact ⟨laws.le_join_left x y, laws.le_join_right x y⟩

/-! ## Joins and look-up -/

omit [DecidableEq α] in
theorem lookup_of_unbound {name : String} (unbound : (a.get? name).isNone = true) :
    a.lookup L name = L.top := by
  rw [lookup, Option.isNone_iff_eq_none.mp unbound, Option.getD_none]

omit [DecidableEq α] in
/-- A name that the first side does not bind keeps the value of the second side. -/
theorem get?_join_of_unbound_left {name : String} (unbound : a.get? name = none) :
    (a.join L b).get? name = b.get? name := by
  rw [get?_join, unbound]

omit [DecidableEq α] in
/-- A name that the second side does not bind keeps the value of the first side. -/
theorem get?_join_of_unbound_right {name : String} (unbound : b.get? name = none) :
    (a.join L b).get? name = a.get? name := by
  rw [get?_join, unbound]
  cases a.get? name <;> rfl

/-- A name that the first side binds is read from a join above its value there. -/
theorem lookup_atMost_join_of_bound (laws : L.LawfulOn V) (left : a.All V) (right : b.All V)
    {name : String} (bound : (a.get? name).isSome = true) :
    L.atMost (a.lookup L name) ((a.join L b).lookup L name) = true := by
  obtain ⟨x, found⟩ := Option.isSome_iff_exists.mp bound
  have below : a.Below L (a.join L b) := by
    rw [join_eq_combine]
    exact below_combine_left fun name x y here there =>
      laws.atMost_join_left (left name x here) (right name y there)
  obtain ⟨y, found', above⟩ := below name x found
  rw [lookup, lookup, found, found']
  exact above

/-- A join is read above its first side exactly where that side binds the name or the second one reads it
as top. -/
theorem lookup_atMost_join_iff (laws : L.LawfulOn V) (left : a.All V) (right : b.All V) (name : String) :
    L.atMost (a.lookup L name) ((a.join L b).lookup L name) = true ↔
      (a.get? name).isSome = true ∨ b.lookup L name = L.top := by
  cases bound : (a.get? name).isSome with
  | true => exact iff_of_true (lookup_atMost_join_of_bound laws left right bound) (Or.inl rfl)
  | false =>
    have unbound := Option.isSome_eq_false_iff.mp bound
    have kept : (a.join L b).lookup L name = b.lookup L name := by
      rw [lookup, get?_join_of_unbound_left (Option.isNone_iff_eq_none.mp unbound), lookup]
    rw [kept, lookup_of_unbound unbound, laws.top_atMost_iff (right.lookup laws.top_mem name)]
    simp

/-- **A join is read above both sides wherever both or neither bind the name.** It is read above one of
them exactly where that side binds the name or the other one reads it as top. A name that only one side
binds keeps the value of that side. -/
theorem join_above_lookups (laws : L.LawfulOn V) (a b : Env α) (left : a.All V) (right : b.All V)
    (name : String) :
    ((a.get? name).isSome = (b.get? name).isSome →
      L.atMost (a.lookup L name) ((a.join L b).lookup L name) = true ∧
      L.atMost (b.lookup L name) ((a.join L b).lookup L name) = true) ∧
    (L.atMost (a.lookup L name) ((a.join L b).lookup L name) = true ↔
      (a.get? name).isSome = true ∨ b.lookup L name = L.top) ∧
    (L.atMost (b.lookup L name) ((a.join L b).lookup L name) = true ↔
      (b.get? name).isSome = true ∨ a.lookup L name = L.top) ∧
    (b.get? name = none → (a.join L b).get? name = a.get? name) ∧
    (a.get? name = none → (a.join L b).get? name = b.get? name) := by
  have first := lookup_atMost_join_iff laws left right name
  have second := lookup_atMost_join_iff laws right left name
  rw [join_comm laws right left] at second
  refine ⟨fun same => ?_, first, second, get?_join_of_unbound_right, get?_join_of_unbound_left⟩
  cases bound : (a.get? name).isSome with
  | true => exact ⟨first.mpr (Or.inl bound), second.mpr (Or.inl (same.symm.trans bound))⟩
  | false =>
    -- A name that neither side binds is read as top from both.
    have unbound := Option.isSome_eq_false_iff.mp bound
    have unbound' := Option.isSome_eq_false_iff.mp (same.symm.trans bound)
    exact ⟨first.mpr (Or.inr (lookup_of_unbound unbound')),
      second.mpr (Or.inr (lookup_of_unbound unbound))⟩

/-- `x` is read from the join above both sides, and `y`, which keeps its value of the only side that binds
it, is read above one of them only. -/
theorem started_stepped_lookups :
    (Interval.lattice 0).atMost (started.lookup (Interval.lattice 0) "x")
      ((started.join (Interval.lattice 0) stepped).lookup (Interval.lattice 0) "x") = true ∧
    (Interval.lattice 0).atMost (stepped.lookup (Interval.lattice 0) "y")
      ((started.join (Interval.lattice 0) stepped).lookup (Interval.lattice 0) "y") = true ∧
    (Interval.lattice 0).atMost (started.lookup (Interval.lattice 0) "y")
      ((started.join (Interval.lattice 0) stepped).lookup (Interval.lattice 0) "y") ≠ true ∧
    (started.join (Interval.lattice 0) stepped).get? "y" = some .bottom := by
  have laws := (Interval.orderLaws_lattice 0).lawfulOn
  have reads := join_above_lookups laws started stepped started_ordered stepped_ordered
  have both : (started.get? "x").isSome = (stepped.get? "x").isSome := by decide
  obtain ⟨-, above, above', -, kept⟩ := reads "y"
  refine ⟨((reads "x").1 both).1, above'.mpr (Or.inl (by decide)), ?_, ?_⟩
  · rw [ne_eq, above]
    decide
  · rw [kept (by decide)]
    decide

/-- What only one side says of `x` is said by the join, although nothing is known of `x` on the other
side. -/
theorem one_sided_value_kept :
    Zero.lattice.LawfulOn (fun _ => True) ∧
    lookup Zero.lattice empty "x" = .unknown ∧
    lookup Zero.lattice (join Zero.lattice empty (ofList [("x", .zero)])) "x" = .zero ∧
    Zero.lattice.atMost (lookup Zero.lattice empty "x")
      (lookup Zero.lattice (join Zero.lattice empty (ofList [("x", .zero)])) "x") = false :=
  ⟨Zero.orderLaws_lattice.lawfulOn, by decide, by decide, by decide⟩

end Env

end Dataflow
