import Dataflow.Proofs.Env.Lookup
import Mathlib.Algebra.Group.Action.Defs
import Mathlib.Algebra.Order.BigOperators.Group.List
import Mathlib.Algebra.Order.Ring.Nat

/-!
# The order of environments

An environment is `Below` another when every name it binds is bound there to a value above. Over a
lattice whose joins are least upper bounds, environments are then ordered and their joins are least
upper bounds again, whatever names they bind. The order `atMost` that counts unbound names as bottom is
the same one for environments without bottom (`Below.atMost`, `Below.trans_atMost`).

What may be missing at a point is an optional environment; `Covered` extends the order to these, with
the missing one at the bottom. The `level` of an environment adds up how far its values can still rise;
a rise lowers it (`level_lt`).
-/

set_option autoImplicit false

namespace Dataflow

namespace NameMap

variable {α : Type}

/-- The listed bindings of a map are what it answers. -/
theorem mem_entries_iff {map : NameMap α} {name : String} {value : α} :
    (name, value) ∈ map.entries ↔ map.get? name = some value := by
  obtain ⟨entries, sorted⟩ := map
  change (name, value) ∈ entries ↔ find? name entries = some value
  induction entries with
  | nil => simp [find?]
  | cons head rest ih =>
    obtain ⟨key, bound⟩ := head
    rw [List.mem_cons, ih (List.pairwise_cons.mp sorted).2]
    by_cases here : name = key
    · -- The first name is not listed again, so only the head can answer for it.
      subst here
      have later := find?_tail_eq_none sorted
      dsimp only at later
      simp [find?, later, eq_comm]
    · simp [find?, here]

end NameMap

/-- The order of a lattice is a partial order with a least value in which joins are least upper
bounds. -/
structure ValueLattice.JoinLaws {α : Type} [DecidableEq α] (L : ValueLattice α) : Prop where
  bottom_le : ∀ a : α, L.atMost L.bottom a = true
  trans : ∀ {a b c : α}, L.atMost a b = true → L.atMost b c = true → L.atMost a c = true
  antisymm : ∀ {a b : α}, L.atMost a b = true → L.atMost b a = true → a = b
  le_join_left : ∀ a b : α, L.atMost a (L.join a b) = true
  le_join_right : ∀ a b : α, L.atMost b (L.join a b) = true
  join_le : ∀ {a b c : α}, L.atMost a c = true → L.atMost b c = true → L.atMost (L.join a b) c = true

/-- Meets are below their first side and monotone in both sides. -/
structure ValueLattice.MeetLaws {α : Type} [DecidableEq α] (L : ValueLattice α) : Prop where
  meet_le_left : ∀ a b : α, L.atMost (L.meet a b) a = true
  meet_le_meet : ∀ {a b c d : α}, L.atMost a b = true → L.atMost c d = true →
    L.atMost (L.meet a c) (L.meet b d) = true

namespace Env

open NameMap

variable {α : Type} [DecidableEq α] {L : ValueLattice α} {env other bound : Env α}

/-- Every bound name is bound to a value above in the other environment. -/
def Below (L : ValueLattice α) (env other : Env α) : Prop :=
  ∀ name a, env.get? name = some a → ∃ b, other.get? name = some b ∧ L.atMost a b = true

theorem atMost_refl (L : ValueLattice α) (a : α) : L.atMost a a = true := by
  simp [ValueLattice.atMost]

theorem below_refl (L : ValueLattice α) (env : Env α) : env.Below L env :=
  fun _ a found => ⟨a, found, atMost_refl L a⟩

theorem Below.trans (laws : L.JoinLaws) (left : env.Below L other) (right : other.Below L bound) :
    env.Below L bound := by
  intro name a found
  obtain ⟨b, found', first⟩ := left name a found
  obtain ⟨c, found'', second⟩ := right name b found'
  exact ⟨c, found'', laws.trans first second⟩

/-- Environments below each other are equal: neither binds a name that the other does not. -/
theorem Below.antisymm (laws : L.JoinLaws) (left : env.Below L other) (right : other.Below L env) :
    env = other := by
  refine ext_get? fun name => ?_
  cases found : env.get? name with
  | none =>
    cases found' : other.get? name with
    | none => rfl
    | some b =>
      obtain ⟨a, there, -⟩ := right name b found'
      rw [found] at there
      cases there
  | some a =>
    obtain ⟨b, found', first⟩ := left name a found
    obtain ⟨a', again, second⟩ := right name b found'
    rw [found] at again
    cases again
    rw [found', laws.antisymm first second]

/-! ## Joins -/

/-- An environment is below its combination with another by an operator that only goes up from it. -/
theorem below_combine_left {f : String → α → α → α}
    (rises : ∀ name a b, env.get? name = some a → other.get? name = some b →
      L.atMost a (f name a b) = true) : env.Below L (env.combine f other) := by
  intro name a found
  rw [get?_combine, found]
  cases found' : other.get? name with
  | none => exact ⟨a, rfl, atMost_refl L a⟩
  | some b => exact ⟨f name a b, rfl, rises name a b found found'⟩

/-- The other environment is below the combination when the operator only goes up from that one. -/
theorem below_combine_right {f : String → α → α → α}
    (rises : ∀ name a b, env.get? name = some a → other.get? name = some b →
      L.atMost b (f name a b) = true) : other.Below L (env.combine f other) := by
  intro name b found
  rw [get?_combine, found]
  cases found' : env.get? name with
  | none => exact ⟨b, rfl, atMost_refl L b⟩
  | some a => exact ⟨f name a b, rfl, rises name a b found' found⟩

theorem below_join_left (laws : L.JoinLaws) (env other : Env α) : env.Below L (env.join L other) := by
  rw [join_eq_combine]
  exact below_combine_left fun _ a b _ _ => laws.le_join_left a b

theorem below_join_right (laws : L.JoinLaws) (env other : Env α) :
    other.Below L (env.join L other) := by
  rw [join_eq_combine]
  exact below_combine_right fun _ a b _ _ => laws.le_join_right a b

/-- What is above both sides is above their join. -/
theorem join_below (laws : L.JoinLaws) (left : env.Below L bound) (right : other.Below L bound) :
    (env.join L other).Below L bound := by
  intro name c found
  rw [get?_join] at found
  cases first : env.get? name with
  | none =>
    rw [first] at found
    exact right name c found
  | some a =>
    rw [first] at found
    cases second : other.get? name with
    | none =>
      rw [second] at found
      cases found
      exact left name _ first
    | some b =>
      rw [second] at found
      cases found
      obtain ⟨d, there, below⟩ := left name a first
      obtain ⟨d', again, below'⟩ := right name b second
      rw [there] at again
      cases again
      exact ⟨d, there, laws.join_le below below'⟩

/-- Joining what is below already changes nothing. -/
theorem join_eq_right (laws : L.JoinLaws) (below : env.Below L other) : env.join L other = other :=
  (join_below laws below (below_refl L other)).antisymm laws (below_join_right laws env other)

/-! ## Updates and refinements -/

/-- An update of a larger environment by larger bindings is larger. -/
theorem Below.updated {bindings bindings' : Env α} (below : env.Below L other)
    (written : bindings.Below L bindings') (same : ∀ name, bindings.get? name = none →
      bindings'.get? name = none) : (env.updated bindings).Below L (other.updated bindings') := by
  intro name a found
  rw [get?_updated] at found ⊢
  cases new : bindings.get? name with
  | none =>
    rw [new, Option.none_or] at found
    rw [same name new, Option.none_or]
    exact below name a found
  | some b =>
    rw [new, Option.some_or] at found
    cases found
    obtain ⟨c, there, above⟩ := written name _ new
    rw [there, Option.some_or]
    exact ⟨c, rfl, above⟩

/-- Everything that the second bindings say of a name is said by the first ones, with a value below. -/
def SaysMore (L : ValueLattice α) (bindings bindings' : Env α) : Prop :=
  ∀ name d, bindings'.get? name = some d → ∃ c, bindings.get? name = some c ∧ L.atMost c d = true

theorem saysMore_refl (L : ValueLattice α) (bindings : Env α) : SaysMore L bindings bindings :=
  fun _ d said => ⟨d, said, atMost_refl L d⟩

/-- **A refinement that succeeds on an environment succeeds on a larger one by bindings that say less,
with more left**, when every refined name was bound. -/
theorem Below.refine? (laws : L.JoinLaws) (meets : L.MeetLaws) {bindings bindings' refined : Env α}
    (bound : ∀ name, (bindings.get? name).isSome = true → (env.get? name).isSome = true)
    (more : SaysMore L bindings bindings') (below : env.Below L other)
    (succeeds : env.refine? L bindings = some refined) :
    ∃ refined', other.refine? L bindings' = some refined' ∧ refined.Below L refined' := by
  obtain ⟨proper, values⟩ := (refine?_eq_some_iff L).mp succeeds
  -- Every refined name is bound in both environments.
  have both : ∀ name c, bindings.get? name = some c → ∃ a b, env.get? name = some a ∧
      other.get? name = some b ∧ L.atMost a b = true := by
    intro name c said
    obtain ⟨a, here⟩ := Option.isSome_iff_exists.mp (bound name (by simp [said]))
    obtain ⟨b, there, above⟩ := below name a here
    exact ⟨a, b, here, there, above⟩
  refine ⟨_, refine?_eq_combine L fun name d said' => ?_, fun name value found => ?_⟩
  · obtain ⟨c, said, le⟩ := more name d said'
    obtain ⟨a, b, here, there, above⟩ := both name c said
    have feasible := proper name c said
    rw [here] at feasible
    rw [there]
    intro bottom
    have least := meets.meet_le_meet above le
    simp only [narrowed] at feasible bottom
    rw [bottom] at least
    exact feasible (laws.antisymm least (laws.bottom_le _))
  · rw [values name] at found
    rw [get?_combine]
    cases said : bindings.get? name with
    | none =>
      -- Bindings that say less do not refine the name, either.
      have silent : bindings'.get? name = none := by
        refine Option.eq_none_iff_forall_not_mem.mpr fun d said' => ?_
        obtain ⟨c, there, -⟩ := more name d said'
        rw [said] at there
        cases there
      rw [said] at found
      obtain ⟨b, there, above⟩ := below name value found
      rw [there, silent]
      exact ⟨b, rfl, above⟩
    | some c =>
      obtain ⟨a, b, here, there, above⟩ := both name c said
      rw [said, here] at found
      cases found
      rw [there]
      cases said' : bindings'.get? name with
      | none => exact ⟨b, rfl, laws.trans (meets.meet_le_left a c) above⟩
      | some d =>
        obtain ⟨c', again, le⟩ := more name d said'
        rw [said] at again
        cases again
        exact ⟨_, rfl, meets.meet_le_meet above le⟩

/-! ## The order that counts unbound names as bottom -/

theorem atMost_iff : env.atMost L other = true ↔ ∀ name a, env.get? name = some a →
    (match other.get? name with
      | some b => L.atMost a b
      | none => L.isBottom a) = true := by
  rw [atMost, List.all_eq_true]
  constructor
  · intro all name a found
    exact all (name, a) (mem_entries_iff.mpr found)
  · rintro all ⟨name, a⟩ listed
    exact all name a (mem_entries_iff.mp listed)

theorem Below.atMost (below : env.Below L other) : env.atMost L other = true := by
  rw [atMost_iff]
  intro name a found
  obtain ⟨b, there, above⟩ := below name a found
  rw [there]
  exact above

/-- Without bottom among its values, an environment is below what is at least another above it. -/
theorem Below.trans_atMost (laws : L.JoinLaws) (proper : env.All (· ≠ L.bottom))
    (below : env.Below L other) (atMost : other.atMost L bound = true) : env.Below L bound := by
  intro name a found
  obtain ⟨b, there, above⟩ := below name a found
  have bounded := atMost_iff.mp atMost name b there
  cases last : bound.get? name with
  | some c =>
    rw [last] at bounded
    exact ⟨c, rfl, laws.trans above bounded⟩
  | none =>
    -- The name counts as bottom there, and nothing but bottom is below that.
    rw [last] at bounded
    rw [of_decide_eq_true bounded] at above
    exact absurd (laws.antisymm above (laws.bottom_le a)) (proper name a found)

/-! ## Environments that may be missing -/

/-- What is there on the left is there on the right, too, and below it. -/
def Covered (L : ValueLattice α) (left right : Option (Env α)) : Prop :=
  ∀ env, left = some env → ∃ other, right = some other ∧ env.Below L other

variable {first second third : Option (Env α)}

theorem covered_none (L : ValueLattice α) (arrived : Option (Env α)) : Covered L none arrived := by
  intro env absent
  cases absent

theorem covered_refl (L : ValueLattice α) (arrived : Option (Env α)) :
    Covered L arrived arrived :=
  fun env found => ⟨env, found, below_refl L env⟩

theorem covered_some (below : env.Below L other) : Covered L (some env) (some other) := by
  intro env' found
  cases found
  exact ⟨other, rfl, below⟩

theorem Covered.trans (laws : L.JoinLaws) (left : Covered L first second)
    (right : Covered L second third) : Covered L first third := by
  intro env found
  obtain ⟨middle, there, below⟩ := left env found
  obtain ⟨last, final, above⟩ := right middle there
  exact ⟨last, final, below.trans laws above⟩

/-! ## Levels -/

/-- A height says how far a value with the property `V` can still rise, which is at most `cap`. -/
structure Descends (L : ValueLattice α) (V : α → Prop) (height : α → Nat) (cap : Nat) : Prop where
  le_cap : ∀ {a : α}, V a → height a ≤ cap
  lt_of_rise : ∀ {a b : α}, V a → V b → L.atMost a b = true → a ≠ b → height b < height a

/-- How far the values of the listed names can still rise. -/
def level (height : α → Nat) (names : List String) (env : Env α) : Nat :=
  (names.map fun name => ((env.get? name).map height).getD 0).sum

variable {V : α → Prop} {height : α → Nat} {cap : Nat} {names : List String}

/-- The level is at most the greatest height for each name. -/
theorem level_le (descends : Descends L V height cap) (all : env.All V) :
    env.level height names ≤ names.length * cap := by
  have each : ∀ n ∈ names.map fun name => ((env.get? name).map height).getD 0, n ≤ cap := by
    intro n found
    obtain ⟨name, -, rfl⟩ := List.mem_map.mp found
    cases here : env.get? name with
    | none => exact Nat.zero_le cap
    | some a => exact descends.le_cap (all name a here)
  have total := List.sum_le_card_nsmul _ cap each
  rwa [List.length_map, smul_eq_mul] at total

/-- **A rise of an environment lowers its level.** -/
theorem level_lt (descends : Descends L V height cap) (left : env.BindsTo V names)
    (right : other.BindsTo V names) (below : env.Below L other) (changed : env ≠ other) :
    other.level height names < env.level height names := by
  have drop : ∀ name a b, env.get? name = some a → other.get? name = some b → a ≠ b →
      height b < height a := by
    intro name a b here there differ
    obtain ⟨b', again, above⟩ := below name a here
    rw [there] at again
    cases again
    exact descends.lt_of_rise (left.values name a here) (right.values name b there) above differ
  have bothBound : ∀ name ∈ names, ∃ a b, env.get? name = some a ∧ other.get? name = some b := by
    intro name listed
    obtain ⟨a, here⟩ := Option.isSome_iff_exists.mp ((left.binds name).mpr listed)
    obtain ⟨b, there⟩ := Option.isSome_iff_exists.mp ((right.binds name).mpr listed)
    exact ⟨a, b, here, there⟩
  refine List.sum_lt_sum _ _ (fun name listed => ?_) ?_
  · obtain ⟨a, b, here, there⟩ := bothBound name listed
    rw [here, there]
    by_cases same : a = b
    · rw [same]
    · exact Nat.le_of_lt (drop name a b here there same)
  · -- Some name tells the two apart, and only listed names are bound.
    obtain ⟨name, differ⟩ : ∃ name, env.get? name ≠ other.get? name := by
      by_contra agree
      refine changed (ext_get? fun name => ?_)
      by_contra differ
      exact agree ⟨name, differ⟩
    have listed : name ∈ names := by
      cases here : env.get? name with
      | some a => exact (left.binds name).mp (by simp [here])
      | none =>
        cases there : other.get? name with
        | some b => exact (right.binds name).mp (by simp [there])
        | none => exact absurd (here.trans there.symm) differ
    obtain ⟨a, b, here, there⟩ := bothBound name listed
    refine ⟨name, listed, ?_⟩
    rw [here, there] at differ ⊢
    exact drop name a b here there fun same => differ (congrArg some same)

/-- How often an environment can still rise, and once more while it is missing. -/
def allowance (height : α → Nat) (cap : Nat) (names : List String) : Option (Env α) → Nat
  | none => names.length * cap + 1
  | some env => env.level height names

/-- A rise uses up some of the allowance. -/
theorem allowance_lt (descends : Descends L V height cap) {last : Option (Env α)}
    (before : ∀ env, last = some env → env.BindsTo V names) (after : other.BindsTo V names)
    (rises : Covered L last (some other)) (changed : last ≠ some other) :
    allowance height cap names (some other) < allowance height cap names last := by
  cases last with
  | none => exact Nat.lt_succ_of_le (level_le descends after.values)
  | some env =>
    obtain ⟨_, same, below⟩ := rises env rfl
    cases same
    exact level_lt descends (before env rfl) after below fun same => changed (congrArg some same)

end Env

end Dataflow
