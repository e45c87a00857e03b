import Dataflow.Env
import Dataflow.FunctionDef

/-!
# What environments bind

Each operation on environments said through look-up: an update, a combination and a refinement act
name by name. A refinement succeeds exactly when no narrowed value is bottom
(`refine?_eq_some_iff`).
-/

set_option autoImplicit false

namespace Dataflow

namespace NameMap

variable {α β : Type}

/-- A listed name has a value, and only a listed one. -/
theorem isSome_find?_iff {name : String} {entries : List (String × α)} :
    (find? name entries).isSome = true ↔ name ∈ entries.map (·.1) := by
  induction entries with
  | nil => simp [find?]
  | cons head rest ih =>
    by_cases here : name = head.1
    · simp [find?, here]
    · simp [find?, here, ih]

/-- The names of a map are those it binds. -/
theorem mem_names_iff {map : NameMap α} {name : String} :
    name ∈ map.names ↔ (map.get? name).isSome = true :=
  isSome_find?_iff.symm

/-- The first name of a sorted list is not listed again. -/
theorem find?_tail_eq_none {head : String × α} {rest : List (String × α)}
    (sorted : (head :: rest).Pairwise NameBefore) : find? head.1 rest = none :=
  find?_eq_none_of_before (List.pairwise_cons.mp sorted).1

/-- Writing a sorted list of bindings, each value computed from its binding. -/
theorem get?_foldl_insert (value : String × β → α) (entries : List (String × β))
    (sorted : entries.Pairwise NameBefore) (start : NameMap α) (name : String) :
    (entries.foldl (fun map entry => map.insert entry.1 (value entry)) start).get? name =
      match find? name entries with
      | some v => some (value (name, v))
      | none => start.get? name := by
  induction entries generalizing start with
  | nil => rfl
  | cons head rest ih =>
    rw [List.foldl_cons, ih (List.pairwise_cons.mp sorted).2]
    by_cases here : name = head.1
    · subst here
      rw [find?_tail_eq_none sorted]
      simp [find?]
    · simp [find?, here]

/-- Where no name comes twice, values computed from the map that is being written are those computed from
the map before all writes. -/
theorem foldl_insert_eq (value : Option α → String × β → α) {entries : List (String × β)}
    (sorted : entries.Pairwise NameBefore) {before start : NameMap α}
    (same : ∀ entry ∈ entries, start.get? entry.1 = before.get? entry.1) :
    entries.foldl (fun map entry => map.insert entry.1 (value (map.get? entry.1) entry)) start =
      entries.foldl (fun map entry => map.insert entry.1 (value (before.get? entry.1) entry)) start := by
  induction entries generalizing start with
  | nil => rfl
  | cons head rest ih =>
    obtain ⟨above, sorted'⟩ := List.pairwise_cons.mp sorted
    rw [List.foldl_cons, List.foldl_cons, same head List.mem_cons_self]
    apply ih sorted'
    intro entry listed
    have later : head.1 < entry.1 := above entry listed
    have differs : entry.1 ≠ head.1 := fun equal => String.lt_irrefl _ (equal ▸ later)
    rw [get?_insert, if_neg differs]
    exact same entry (List.mem_cons_of_mem _ listed)

/-- Writing one value under several names. -/
theorem get?_foldl_insert_same (value : α) (names : List String) (start : NameMap α)
    (name : String) :
    (names.foldl (fun map other => map.insert other value) start).get? name =
      if name ∈ names then some value else start.get? name := by
  induction names generalizing start with
  | nil => rfl
  | cons head rest ih =>
    rw [List.foldl_cons, ih]
    by_cases later : name ∈ rest
    · simp [later]
    · by_cases here : name = head <;> simp [later, here]

/-- Everything a map made from a list binds is listed. -/
theorem mem_of_get?_ofList {bindings : List (String × α)} {name : String} {value : α}
    (bound : (ofList bindings).get? name = some value) : (name, value) ∈ bindings := by
  have key : ∀ (bindings : List (String × α)) (start : NameMap α),
      (bindings.foldl (fun map binding => map.insert binding.1 binding.2) start).get? name =
        some value → (name, value) ∈ bindings ∨ start.get? name = some value := by
    intro bindings
    induction bindings with
    | nil => exact fun start found => Or.inr found
    | cons head rest ih =>
      intro start found
      rcases ih _ found with later | before
      · exact Or.inl (List.mem_cons_of_mem _ later)
      · rw [get?_insert] at before
        split at before
        · next here =>
          cases before
          exact Or.inl (by simp [here])
        · exact Or.inr before
  exact (key bindings empty bound).resolve_right (by simp)

/-- A map made from one binding. -/
theorem get?_ofList_singleton (key : String) (value : α) (name : String) :
    (ofList [(key, value)]).get? name = if name = key then some value else none := by
  rw [ofList, List.foldl_cons, List.foldl_nil, get?_insert, get?_empty]

/-- A map made from two bindings, of which the later one counts. -/
theorem get?_ofList_pair (y x : String) (a b : α) (name : String) :
    (ofList [(y, a), (x, b)]).get? name =
      if name = x then some b else if name = y then some a else none := by
  rw [ofList, List.foldl_cons, List.foldl_cons, List.foldl_nil, get?_insert, get?_insert, get?_empty]

end NameMap

/-- The members of a set made from a list are the listed names. -/
theorem NameSet.mem_toList_ofList {names : List String} {name : String} :
    name ∈ (NameSet.ofList names).toList ↔ name ∈ names := by
  rw [NameSet.toList, NameMap.mem_names_iff, NameSet.ofList]
  have members := NameMap.get?_foldl_insert_same () names NameMap.empty name
  rw [show NameSet.add = fun map other => NameMap.insert map other () from rfl, members]
  by_cases here : name ∈ names <;> simp [here]

namespace Env

open NameMap

variable {α : Type}

/-- The uniform environment binds the listed names. -/
theorem get?_uniform (names : List String) (value : α) (name : String) :
    (uniform names value).get? name = if name ∈ names then some value else none := by
  rw [uniform, ofList, List.foldl_map, get?_foldl_insert_same]
  rfl

/-- An update overwrites what it binds. -/
theorem get?_updated (env bindings : Env α) (name : String) :
    (env.updated bindings).get? name = (bindings.get? name).or (env.get? name) := by
  rw [updated, get?_foldl_insert (·.2) _ bindings.sorted]
  cases bound : bindings.get? name <;> rw [NameMap.get?] at bound <;> simp [bound]

/-- A combination applies its function where both sides bind a name. -/
theorem get?_combine (f : String → α → α → α) (env other : Env α) (name : String) :
    (env.combine f other).get? name =
      match env.get? name, other.get? name with
      | some a, some b => some (f name a b)
      | some a, none => some a
      | none, bound => bound := by
  refine (get?_foldl_insert _ other.entries other.sorted env name).trans ?_
  change (match other.get? name with | some v => _ | none => _) = _
  cases here : env.get? name <;> cases other.get? name <;> simp [here]

/-- A join is the combination by joins. -/
theorem join_eq_combine (L : ValueLattice α) (env other : Env α) :
    env.join L other = env.combine (fun _ => L.join) other := by
  let joined : Option α → String × α → α := fun current binding => match current with
    | some value => L.join value binding.2
    | none => binding.2
  exact foldl_insert_eq joined other.sorted fun _ _ => rfl

theorem get?_join (L : ValueLattice α) (a b : Env α) (name : String) :
    (a.join L b).get? name =
      match a.get? name, b.get? name with
      | some x, some y => some (L.join x y)
      | some x, none => some x
      | none, bound => bound := by
  rw [join_eq_combine, get?_combine]

section Refinement

variable [DecidableEq α] (L : ValueLattice α)

/-- A value met with what was bound before, if anything was. -/
def narrowed (current : Option α) (value : α) : α :=
  match current with
  | some bound => L.meet bound value
  | none => value

/-- One binding of a refinement. -/
def refineStep (env : Env α) (binding : String × α) : Option (Env α) :=
  if L.isBottom (narrowed L (env.get? binding.1) binding.2) then none
  else some (NameMap.insert env binding.1 (narrowed L (env.get? binding.1) binding.2))

/-- A refinement by a sorted list of bindings. No name comes twice, so each meets what was bound
before the refinement. -/
theorem foldlM_refineStep_eq_some_iff {entries : List (String × α)}
    (sorted : entries.Pairwise NameBefore) {env refined : Env α} :
    entries.foldlM (refineStep L) env = some refined ↔
      (∀ name value, find? name entries = some value →
        narrowed L (env.get? name) value ≠ L.bottom) ∧
      ∀ name, refined.get? name = match find? name entries with
        | some value => some (narrowed L (env.get? name) value)
        | none => env.get? name := by
  induction entries generalizing env with
  | nil =>
    constructor
    · intro same
      cases same
      exact ⟨fun _ _ found => by simp [find?] at found, fun _ => rfl⟩
    · rintro ⟨-, same⟩
      exact congrArg some (ext_get? fun name => (same name).symm)
  | cons head rest ih =>
    obtain ⟨key, new⟩ := head
    have later := find?_tail_eq_none sorted
    by_cases bottom : narrowed L (env.get? key) new = L.bottom
    · simp only [List.foldlM_cons, refineStep, ValueLattice.isBottom, bottom]
      constructor
      · intro impossible
        simp at impossible
      · rintro ⟨fine, -⟩
        exact absurd bottom (fine key new (by simp [find?]))
    · have stepped : refineStep L env (key, new) =
          some (NameMap.insert env key (narrowed L (env.get? key) new)) := by
        simp [refineStep, ValueLattice.isBottom, bottom]
      rw [List.foldlM_cons, stepped, Option.bind_eq_bind, Option.bind_some,
        ih (List.pairwise_cons.mp sorted).2]
      refine and_congr (forall_congr' fun name => ?_) (forall_congr' fun name => ?_)
      · by_cases here : name = key
        · subst here
          simp [find?, later, bottom]
        · simp [find?, here]
      · by_cases here : name = key
        · subst here
          simp [find?, later]
        · simp [find?, here]

/-- **A refinement succeeds exactly when no narrowed value is bottom, and then narrows every name that
it binds.** -/
theorem refine?_eq_some_iff {env bindings refined : Env α} :
    env.refine? L bindings = some refined ↔
      (∀ name value, bindings.get? name = some value →
        narrowed L (env.get? name) value ≠ L.bottom) ∧
      ∀ name, refined.get? name = match bindings.get? name with
        | some value => some (narrowed L (env.get? name) value)
        | none => env.get? name :=
  foldlM_refineStep_eq_some_iff L bindings.sorted

/-- A refinement that meets no bottom is the combination by meets. -/
theorem refine?_eq_combine {env bindings : Env α}
    (proper : ∀ name value, bindings.get? name = some value →
      narrowed L (env.get? name) value ≠ L.bottom) :
    env.refine? L bindings = some (env.combine (fun _ => L.meet) bindings) := by
  refine (refine?_eq_some_iff L).mpr ⟨proper, fun name => ?_⟩
  rw [get?_combine]
  cases env.get? name <;> cases bindings.get? name <;> rfl

/-- A refinement has no result exactly when it meets a bottom. -/
theorem refine?_eq_none_iff {env bindings : Env α} :
    env.refine? L bindings = none ↔ ∃ name value, bindings.get? name = some value ∧
      narrowed L (env.get? name) value = L.bottom := by
  constructor
  · intro absent
    apply Classical.byContradiction
    intro proper
    rw [refine?_eq_combine L fun name value found empty => proper ⟨name, value, found, empty⟩] at absent
    cases absent
  · intro ⟨name, value, found, empty⟩
    apply Option.eq_none_iff_forall_ne_some.mpr
    intro refined succeeds
    exact ((refine?_eq_some_iff L).mp succeeds).1 name value found empty

end Refinement

/-! ## The names of an environment -/

/-- An environment binds the listed names and no others. -/
def Binds (env : Env α) (names : List String) : Prop :=
  ∀ name, (env.get? name).isSome = true ↔ name ∈ names

/-- The uniform environment binds its names. -/
theorem binds_uniform (names : List String) (value : α) : (uniform names value).Binds names := by
  intro name
  rw [get?_uniform]
  by_cases here : name ∈ names <;> simp [here]

/-- An update of listed names binds the same names. -/
theorem Binds.updated {env bindings : Env α} {names : List String} (binds : env.Binds names)
    (listed : ∀ name, (bindings.get? name).isSome = true → name ∈ names) :
    (env.updated bindings).Binds names := by
  intro name
  rw [get?_updated, Option.isSome_or, Bool.or_eq_true, binds name]
  exact or_iff_right_of_imp (listed name)

/-- A combination of environments with the same names binds these names. -/
theorem Binds.combine {env other : Env α} {names : List String} (f : String → α → α → α)
    (binds : env.Binds names) (binds' : other.Binds names) : (env.combine f other).Binds names := by
  intro name
  rw [← binds name, get?_combine]
  have same := (binds name).trans (binds' name).symm
  cases left : env.get? name <;> cases right : other.get? name <;> simp_all

theorem Binds.join {L : ValueLattice α} {env other : Env α} {names : List String}
    (binds : env.Binds names) (binds' : other.Binds names) : (env.join L other).Binds names := by
  rw [join_eq_combine]
  exact binds.combine _ binds'

/-- A refinement of listed names binds the same names. -/
theorem Binds.refine? [DecidableEq α] {L : ValueLattice α} {env bindings refined : Env α}
    {names : List String} (binds : env.Binds names)
    (listed : ∀ name, (bindings.get? name).isSome = true → name ∈ names)
    (succeeds : env.refine? L bindings = some refined) : refined.Binds names := by
  intro name
  rw [((refine?_eq_some_iff L).mp succeeds).2 name]
  cases narrow : bindings.get? name with
  | none => exact binds name
  | some value => exact iff_of_true rfl (listed name (by simp [narrow]))

/-! ## The values of an environment -/

/-- Every bound value has a property. -/
def All (V : α → Prop) (env : Env α) : Prop := ∀ name a, env.get? name = some a → V a

/-- An environment binds the listed names and no others, each to a value with a property. -/
structure BindsTo (V : α → Prop) (names : List String) (env : Env α) : Prop where
  binds : env.Binds names
  values : env.All V

variable {V : α → Prop}

/-- The uniform environment has the value everywhere. -/
theorem all_uniform {value : α} (holds : V value) (names : List String) :
    (uniform names value).All V := by
  intro name a found
  rw [get?_uniform] at found
  split at found
  · cases found
    exact holds
  · cases found

/-- A combination keeps what its function keeps. -/
theorem All.combine {f : String → α → α → α} {env other : Env α} (left : env.All V)
    (right : other.All V) (keeps : ∀ {name : String} {a b : α}, V a → V b → V (f name a b)) :
    (env.combine f other).All V := by
  intro name c found
  rw [get?_combine] at found
  cases first : env.get? name with
  | none =>
    rw [first] at found
    exact right name c found
  | some a =>
    rw [first] at found
    cases second : other.get? name with
    | none =>
      rw [second] at found
      cases found
      exact left name _ first
    | some b =>
      rw [second] at found
      cases found
      exact keeps (left name a first) (right name b second)

theorem All.join {L : ValueLattice α} {env other : Env α} (left : env.All V) (right : other.All V)
    (keeps : ∀ {a b : α}, V a → V b → V (L.join a b)) : (env.join L other).All V := by
  rw [join_eq_combine]
  exact left.combine right keeps

/-- An update has the values of both. -/
theorem All.updated {env bindings : Env α} (old : env.All V) (new : bindings.All V) :
    (env.updated bindings).All V := by
  intro name a found
  rw [get?_updated, Option.or_eq_some_iff] at found
  rcases found with written | ⟨-, kept⟩
  · exact new name a written
  · exact old name a kept

/-- What is read from an environment has the property, also when the name is unbound. -/
theorem All.lookup {L : ValueLattice α} (top : V L.top) {env : Env α} (all : env.All V)
    (name : String) : V (env.lookup L name) := by
  unfold Env.lookup
  cases found : env.get? name with
  | none => exact top
  | some a => exact all name a found

end Env

end Dataflow
