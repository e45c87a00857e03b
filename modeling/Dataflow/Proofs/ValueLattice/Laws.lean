import Dataflow.Proofs.Env.Order
import Dataflow.ValueLattice.Laws
import Mathlib.Order.Lattice

/-!
# The laws of a lattice

The operations of a lattice may behave only on some of its values, such as the intervals whose ends are in
order. `OrderLaws` says that these values are ordered with bounds, that they are closed under joins and
meets, and that joins are least upper and meets greatest lower bounds. The equations follow
(`OrderLaws.lawfulOn`): the values form a lattice in the sense of the library, whose laws are those of
the operations. `LatticeLaws` has the order and the equations together.

Conversely, the equations of a lattice with a strict order that agrees with them (`LawfulOn`) order the
values again, as a semilattice of the library with bounds (`LawfulOn.Values`).

A check tries the laws on samples. Where the laws hold it has nothing to report
(`LatticeLaws.check_eq_nil`).
-/

set_option autoImplicit false

namespace Dataflow.ValueLattice

variable {α : Type} [DecidableEq α]

/-- The values with a property have bounds and are closed under the operations. -/
structure Closed (L : ValueLattice α) (V : α → Prop) : Prop where
  bottom_mem : V L.bottom
  top_mem : V L.top
  join_mem : ∀ {a b : α}, V a → V b → V (L.join a b)
  meet_mem : ∀ {a b : α}, V a → V b → V (L.meet a b)

/-- The values with a property are ordered, with least upper and greatest lower bounds among them. -/
structure OrderLaws (L : ValueLattice α) (V : α → Prop) : Prop extends L.JoinLaws, L.Closed V where
  le_top : ∀ a : α, L.atMost a L.top = true
  meet_le_left : ∀ a b : α, L.atMost (L.meet a b) a = true
  meet_le_right : ∀ a b : α, L.atMost (L.meet a b) b = true
  le_meet : ∀ {a b c : α}, V c → L.atMost c a = true → L.atMost c b = true →
    L.atMost c (L.meet a b) = true
  /-- The strict order is strict. -/
  below_irrefl : ∀ a : α, L.below a a = false

/-- The values with a property satisfy the equations of a lattice with bounds, and the strict order agrees
with them. -/
structure LawfulOn (L : ValueLattice α) (V : α → Prop) : Prop extends L.Closed V where
  join_comm : ∀ {a b : α}, V a → V b → L.join a b = L.join b a
  join_assoc : ∀ {a b c : α}, V a → V b → V c → L.join (L.join a b) c = L.join a (L.join b c)
  join_self : ∀ {a : α}, V a → L.join a a = a
  meet_comm : ∀ {a b : α}, V a → V b → L.meet a b = L.meet b a
  meet_assoc : ∀ {a b c : α}, V a → V b → V c → L.meet (L.meet a b) c = L.meet a (L.meet b c)
  meet_self : ∀ {a : α}, V a → L.meet a a = a
  join_meet_self : ∀ {a b : α}, V a → V b → L.join a (L.meet a b) = a
  meet_join_self : ∀ {a b : α}, V a → V b → L.meet a (L.join a b) = a
  join_bottom : ∀ {a : α}, V a → L.join a L.bottom = a
  meet_top : ∀ {a : α}, V a → L.meet a L.top = a
  below_iff : ∀ {a b : α}, V a → V b → (L.below a b = true ↔ L.join a b = b ∧ a ≠ b)

/-- The laws of a lattice on the values with a property: those of the order, the equations, and what the
bounds do on the other side. -/
structure LatticeLaws (L : ValueLattice α) (V : α → Prop) : Prop extends
    L.OrderLaws V, L.LawfulOn V where
  bottom_join : ∀ {a : α}, V a → L.join L.bottom a = a
  top_join : ∀ {a : α}, V a → L.join L.top a = L.top
  bottom_meet : ∀ {a : α}, V a → L.meet L.bottom a = L.bottom
  top_meet : ∀ {a : α}, V a → L.meet L.top a = a
  below_trans : ∀ {a b c : α}, L.below a b = true → L.below b c = true → L.below a c = true
  below_asymm : ∀ {a b : α}, L.below a b = true → L.below b a = false
  atMost_iff_join : ∀ {a b : α}, V a → V b → (L.atMost a b = true ↔ L.join a b = b)
  atMost_iff_meet : ∀ {a b : α}, V a → V b → (L.atMost a b = true ↔ L.meet a b = a)

variable {L : ValueLattice α} {V : α → Prop}

/-! ## From the order to the laws -/

/-- The lattice of the values with a property. -/
@[reducible] def OrderLaws.lattice (laws : L.OrderLaws V) : Lattice {a : α // V a} where
  le a b := L.atMost a.1 b.1 = true
  le_refl a := Env.atMost_refl L a.1
  le_trans _ _ _ := laws.trans
  le_antisymm _ _ left right := Subtype.ext (laws.antisymm left right)
  sup a b := ⟨L.join a.1 b.1, laws.join_mem a.2 b.2⟩
  le_sup_left a b := laws.le_join_left a.1 b.1
  le_sup_right a b := laws.le_join_right a.1 b.1
  sup_le _ _ _ := laws.join_le
  inf a b := ⟨L.meet a.1 b.1, laws.meet_mem a.2 b.2⟩
  inf_le_left a b := laws.meet_le_left a.1 b.1
  inf_le_right a b := laws.meet_le_right a.1 b.1
  le_inf a _ _ := laws.le_meet a.2

/-- The strict order is the order between different values. -/
theorem OrderLaws.below_iff (laws : L.OrderLaws V) {a b : α} :
    L.below a b = true ↔ L.atMost a b = true ∧ a ≠ b := by
  by_cases same : a = b
  · subst same
    simp [laws.below_irrefl]
  · simp [atMost, same]

theorem OrderLaws.below_trans (laws : L.OrderLaws V) {a b c : α} (first : L.below a b = true)
    (second : L.below b c = true) : L.below a c = true := by
  obtain ⟨le, different⟩ := laws.below_iff.mp first
  have le' := (laws.below_iff.mp second).1
  apply laws.below_iff.mpr
  refine ⟨laws.trans le le', ?_⟩
  -- Going up and coming back would make the values in between equal.
  rintro rfl
  exact different (laws.antisymm le le')

theorem OrderLaws.below_asymm (laws : L.OrderLaws V) {a b : α} (first : L.below a b = true) :
    L.below b a = false := by
  rw [Bool.eq_false_iff]
  intro second
  have strict := laws.below_trans first second
  rw [laws.below_irrefl] at strict
  cases strict

/-- The order in terms of joins. -/
theorem OrderLaws.atMost_iff_join (laws : L.OrderLaws V) {a b : α} (left : V a) (right : V b) :
    L.atMost a b = true ↔ L.join a b = b := by
  let _ := laws.lattice
  have order : (⟨a, left⟩ : {a : α // V a}) ⊔ ⟨b, right⟩ = ⟨b, right⟩ ↔ L.atMost a b = true :=
    sup_eq_right
  exact order.symm.trans Subtype.ext_iff

/-- The order in terms of meets. -/
theorem OrderLaws.atMost_iff_meet (laws : L.OrderLaws V) {a b : α} (left : V a) (right : V b) :
    L.atMost a b = true ↔ L.meet a b = a := by
  let _ := laws.lattice
  have order : (⟨a, left⟩ : {a : α // V a}) ⊓ ⟨b, right⟩ = ⟨a, left⟩ ↔ L.atMost a b = true :=
    inf_eq_left
  exact order.symm.trans Subtype.ext_iff

/-- **Where the operations are bounds of an order, the equations of a lattice hold.** -/
theorem OrderLaws.lawfulOn (laws : L.OrderLaws V) : L.LawfulOn V := by
  let _ := laws.lattice
  -- A law of the library about the values with the property is one about the operations.
  have law : ∀ {s t : {a : α // V a}}, s = t → s.1 = t.1 := congrArg Subtype.val
  refine .mk laws.toClosed ?join_comm ?join_assoc ?join_self ?meet_comm ?meet_assoc ?meet_self
    ?join_meet_self ?meet_join_self ?join_bottom ?meet_top ?below_iff
  case join_comm =>
    intro a b left right
    exact law (sup_comm ⟨a, left⟩ ⟨b, right⟩)
  case join_assoc =>
    intro a b c left middle right
    exact law (sup_assoc ⟨a, left⟩ ⟨b, middle⟩ ⟨c, right⟩)
  case join_self =>
    intro a value
    exact law (sup_idem ⟨a, value⟩)
  case meet_comm =>
    intro a b left right
    exact law (inf_comm ⟨a, left⟩ ⟨b, right⟩)
  case meet_assoc =>
    intro a b c left middle right
    exact law (inf_assoc ⟨a, left⟩ ⟨b, middle⟩ ⟨c, right⟩)
  case meet_self =>
    intro a value
    exact law (inf_idem ⟨a, value⟩)
  case join_meet_self =>
    intro a b left right
    exact law (sup_inf_self (a := ⟨a, left⟩) (b := ⟨b, right⟩))
  case meet_join_self =>
    intro a b left right
    exact law (inf_sup_self (a := ⟨a, left⟩) (b := ⟨b, right⟩))
  case join_bottom =>
    intro a value
    exact law (sup_of_le_left (a := ⟨a, value⟩) (b := ⟨L.bottom, laws.bottom_mem⟩) (laws.bottom_le a))
  case meet_top =>
    intro a value
    exact (laws.atMost_iff_meet value laws.top_mem).mp (laws.le_top a)
  case below_iff =>
    intro a b left right
    exact laws.below_iff.trans (and_congr_left' (laws.atMost_iff_join left right))

/-- The order, the equations and the bounds together. -/
theorem OrderLaws.latticeLaws (laws : L.OrderLaws V) : L.LatticeLaws V where
  toOrderLaws := laws
  __ := laws.lawfulOn
  bottom_join value := (laws.atMost_iff_join laws.bottom_mem value).mp (laws.bottom_le _)
  top_join value := by
    rw [laws.lawfulOn.join_comm laws.top_mem value]
    exact (laws.atMost_iff_join value laws.top_mem).mp (laws.le_top _)
  bottom_meet value := (laws.atMost_iff_meet laws.bottom_mem value).mp (laws.bottom_le _)
  top_meet value := by
    rw [laws.lawfulOn.meet_comm laws.top_mem value]
    exact laws.lawfulOn.meet_top value
  below_trans := laws.below_trans
  below_asymm := laws.below_asymm
  atMost_iff_join := laws.atMost_iff_join
  atMost_iff_meet := laws.atMost_iff_meet

/-! ## From the equations to the order -/

namespace LawfulOn

/-- The values with the property, as a type that their equations order. -/
@[ext] structure Values (laws : L.LawfulOn V) where
  value : α
  mem : V value

variable (laws : L.LawfulOn V)

instance : Max laws.Values := ⟨fun a b => ⟨L.join a.value b.value, laws.join_mem a.mem b.mem⟩⟩

instance : SemilatticeSup laws.Values :=
  .mk' (fun a b => Values.ext (laws.join_comm a.mem b.mem))
    (fun a b c => Values.ext (laws.join_assoc a.mem b.mem c.mem))
    (fun a => Values.ext (laws.join_self a.mem))

instance : OrderBot laws.Values where
  bot := ⟨L.bottom, laws.bottom_mem⟩
  bot_le a := Values.ext ((laws.join_comm laws.bottom_mem a.mem).trans (laws.join_bottom a.mem))

instance : OrderTop laws.Values where
  top := ⟨L.top, laws.top_mem⟩
  le_top a := Values.ext <| calc
    L.join a.value L.top = L.join L.top a.value := laws.join_comm a.mem laws.top_mem
    _ = L.join L.top (L.meet L.top a.value) := by
      rw [laws.meet_comm laws.top_mem a.mem, laws.meet_top a.mem]
    _ = L.top := laws.join_meet_self laws.top_mem a.mem

/-- **The order of the lattice is that of the equations.** -/
theorem atMost_iff_le {a b : laws.Values} : L.atMost a.value b.value = true ↔ a ≤ b := by
  have order : a ≤ b ↔ L.join a.value b.value = b.value := Values.ext_iff
  rw [order, atMost, Bool.or_eq_true, decide_eq_true_eq, laws.below_iff a.mem b.mem]
  constructor
  · rintro (same | ⟨joined, -⟩)
    · rw [same, laws.join_self b.mem]
    · exact joined
  · intro joined
    by_cases same : a.value = b.value
    · exact Or.inl same
    · exact Or.inr ⟨joined, same⟩

variable {a b : α}

theorem atMost_join_left (laws : L.LawfulOn V) (left : V a) (right : V b) :
    L.atMost a (L.join a b) = true :=
  laws.atMost_iff_le.mpr (le_sup_left : (⟨a, left⟩ : laws.Values) ≤ _ ⊔ ⟨b, right⟩)

theorem bottom_atMost (laws : L.LawfulOn V) (mem : V a) : L.atMost L.bottom a = true :=
  laws.atMost_iff_le.mpr (bot_le : ⊥ ≤ (⟨a, mem⟩ : laws.Values))

theorem atMost_bottom_iff (laws : L.LawfulOn V) (mem : V a) : L.atMost a L.bottom = true ↔ a = L.bottom := by
  have least : (⟨a, mem⟩ : laws.Values) ≤ ⊥ ↔ _ := le_bot_iff
  rw [← laws.atMost_iff_le, Values.ext_iff] at least
  exact least

theorem top_atMost_iff (laws : L.LawfulOn V) (mem : V a) : L.atMost L.top a = true ↔ a = L.top := by
  have greatest : ⊤ ≤ (⟨a, mem⟩ : laws.Values) ↔ _ := top_le_iff
  rw [← laws.atMost_iff_le, Values.ext_iff] at greatest
  exact greatest

end LawfulOn

/-! ## Checks -/

/-- A check reports a condition exactly when it fails. -/
theorem violation_eq_nil_iff {holds : Bool} {sentence : String} :
    violation holds sentence = [] ↔ holds = true := by
  cases holds <;> simp [violation]

/-- An operation with the laws of a join passes its check. -/
theorem checkOperation_eq_nil {op : α → α → α} (comm : ∀ {a b : α}, V a → V b → op a b = op b a)
    (assoc : ∀ {a b c : α}, V a → V b → V c → op (op a b) c = op a (op b c))
    (self : ∀ {a : α}, V a → op a a = a) (text : α → String) (name : String) {elements : List α}
    (values : ∀ a ∈ elements, V a) : checkOperation text name op elements = [] := by
  simp only [checkOperation, List.flatMap_eq_nil_iff, List.append_eq_nil_iff, violation_eq_nil_iff,
    decide_eq_true_eq]
  intro a first
  refine ⟨self (values a first), ?_⟩
  intro b second
  refine ⟨comm (values a first) (values b second), ?_⟩
  intro c third
  exact assoc (values a first) (values b second) (values c third)

/-- **The checks find no violation on values that satisfy the laws.** The check of the covers is about
more than these laws. -/
theorem LatticeLaws.check_eq_nil (laws : L.LatticeLaws V) (text : α → String) {elements : List α}
    (values : ∀ a ∈ elements, V a) {family : LawFamily} (other : family ≠ .covers) :
    L.check text elements family = [] := by
  cases family with
  | join => exact checkOperation_eq_nil laws.join_comm laws.join_assoc laws.join_self text _ values
  | meet => exact checkOperation_eq_nil laws.meet_comm laws.meet_assoc laws.meet_self text _ values
  | absorption =>
    simp only [check, checkAbsorption, List.flatMap_eq_nil_iff, List.append_eq_nil_iff,
      violation_eq_nil_iff, decide_eq_true_eq]
    intro a first b second
    exact ⟨laws.join_meet_self (values a first) (values b second),
      laws.meet_join_self (values a first) (values b second)⟩
  | ordering =>
    simp only [check, checkOrdering, List.flatMap_eq_nil_iff, List.append_eq_nil_iff,
      violation_eq_nil_iff, beq_iff_eq]
    intro a first b second
    constructor <;> rw [Bool.eq_iff_iff, decide_eq_true_iff]
    · exact laws.atMost_iff_join (values a first) (values b second)
    · exact laws.atMost_iff_meet (values a first) (values b second)
  | bounds =>
    simp only [check, checkBounds, List.flatMap_eq_nil_iff, List.append_eq_nil_iff,
      violation_eq_nil_iff, decide_eq_true_eq]
    intro a listed
    have value := values a listed
    exact ⟨⟨⟨⟨⟨laws.bottom_le a, laws.bottom_join value⟩, laws.bottom_meet value⟩, laws.le_top a⟩,
      laws.top_join value⟩, laws.top_meet value⟩
  | irreflexive =>
    simp only [check, checkIrreflexive, above, List.flatMap_eq_nil_iff, List.append_eq_nil_iff,
      violation_eq_nil_iff, laws.below_irrefl, Bool.not_false, beq_self_eq_true, true_and]
    intro a _ b _
    cases first : L.below a b with
    | false => rfl
    | true => rw [laws.below_asymm first]; rfl
  | covers => exact absurd rfl other

end Dataflow.ValueLattice
