/-!
# Finite maps from names

A map is the list of its bindings in strictly ascending order of names, so two maps with the same
bindings are the same value (`NameMap.ext_get?`). Names are ordered by code points. The view of a map
is `get?`; `get?_insert` says what a write does to it.
-/

set_option autoImplicit false

namespace Dataflow

/-- Strict order of bindings by name. -/
def NameBefore {α : Type} (a b : String × α) : Prop := a.1 < b.1

/-- A finite map from names, listed in name order. -/
structure NameMap (α : Type) where
  entries : List (String × α)
  sorted : entries.Pairwise NameBefore
deriving DecidableEq

namespace NameMap

variable {α : Type}

/-- Two names of which neither is before the other are equal. -/
theorem eq_of_not_lt {a b : String} (notBefore : ¬ a < b) (notAfter : ¬ b < a) : a = b :=
  String.le_antisymm (String.not_lt.mp notAfter) (String.not_lt.mp notBefore)

/-- A sorted list of bindings with one more binding at its place; a binding of the same name is
replaced. -/
def place (name : String) (value : α) : List (String × α) → List (String × α)
  | [] => [(name, value)]
  | (key, old) :: rest =>
    if name < key then (name, value) :: (key, old) :: rest
    else if key < name then (key, old) :: place name value rest
    else (name, value) :: rest

/-- Placing adds no binding but its own. -/
theorem mem_place {name : String} {value : α} {entry : String × α} {entries : List (String × α)}
    (found : entry ∈ place name value entries) : entry = (name, value) ∨ entry ∈ entries := by
  induction entries with
  | nil => exact Or.inl (by simpa [place] using found)
  | cons head rest ih =>
    obtain ⟨key, old⟩ := head
    rw [place] at found
    split at found
    · exact List.mem_cons.mp found
    · split at found
      · rcases List.mem_cons.mp found with here | later
        · exact Or.inr (here ▸ List.mem_cons_self)
        · rcases ih later with new | there
          · exact Or.inl new
          · exact Or.inr (List.mem_cons_of_mem _ there)
      · rcases List.mem_cons.mp found with here | later
        · exact Or.inl here
        · exact Or.inr (List.mem_cons_of_mem _ later)

/-- Placing keeps the order. -/
theorem pairwise_place (name : String) (value : α) {entries : List (String × α)}
    (sorted : entries.Pairwise NameBefore) : (place name value entries).Pairwise NameBefore := by
  induction entries with
  | nil => exact List.pairwise_singleton _ _
  | cons head rest ih =>
    obtain ⟨key, old⟩ := head
    obtain ⟨above, tail⟩ := List.pairwise_cons.mp sorted
    rw [place]
    split
    · next before =>
      refine List.pairwise_cons.mpr ⟨fun entry found => ?_, sorted⟩
      rcases List.mem_cons.mp found with here | later
      · exact here ▸ before
      · exact String.lt_trans before (above entry later)
    · split
      · next after =>
        refine List.pairwise_cons.mpr ⟨fun entry found => ?_, ih tail⟩
        rcases mem_place found with new | there
        · exact new ▸ after
        · exact above entry there
      · next notBefore notAfter =>
        have same : name = key := eq_of_not_lt notBefore notAfter
        exact List.pairwise_cons.mpr ⟨fun entry found => same ▸ above entry found, tail⟩

/-- The map without bindings. -/
def empty : NameMap α := ⟨[], .nil⟩

/-- The map with `name` bound to `value`. -/
def insert (map : NameMap α) (name : String) (value : α) : NameMap α :=
  ⟨place name value map.entries, pairwise_place name value map.sorted⟩

/-- The map with the listed bindings; of two with one name the later counts. -/
def ofList (bindings : List (String × α)) : NameMap α :=
  bindings.foldl (fun map binding => map.insert binding.1 binding.2) empty

/-- The value of the first binding of `name` in a list. -/
def find? (name : String) : List (String × α) → Option α
  | [] => none
  | (key, value) :: rest => if name = key then some value else find? name rest

/-- The value of `name`, when it is bound. -/
def get? (map : NameMap α) (name : String) : Option α :=
  find? name map.entries

/-- The bound names in order. -/
def names (map : NameMap α) : List String :=
  map.entries.map (·.1)

/-- The number of bindings. -/
def size (map : NameMap α) : Nat :=
  map.entries.length

/-- Nothing is bound in the empty map. -/
@[simp] theorem get?_empty (name : String) : (empty : NameMap α).get? name = none := rfl

/-- Looking a name up after placing a binding. -/
theorem find?_place (name other : String) (value : α) (entries : List (String × α)) :
    find? other (place name value entries) =
      if other = name then some value else find? other entries := by
  induction entries with
  | nil => rfl
  | cons head rest ih =>
    obtain ⟨key, old⟩ := head
    rw [place]
    split
    · rfl
    · split
      · next after =>
        have differ : key ≠ name := fun equal => String.lt_irrefl name (equal ▸ after)
        by_cases same : other = key
        · simp [find?, same, differ]
        · simp [find?, same, ih]
      · next notBefore notAfter =>
        have equal : name = key := eq_of_not_lt notBefore notAfter
        subst equal
        by_cases same : other = name <;> simp [find?, same]

/-- A write changes the written name and no other. -/
@[simp] theorem get?_insert (map : NameMap α) (name other : String) (value : α) :
    (map.insert name value).get? other = if other = name then some value else map.get? other :=
  find?_place name other value map.entries

/-- A name before every listed one is not bound. -/
theorem find?_eq_none_of_before {name : String} {entries : List (String × α)}
    (before : ∀ entry ∈ entries, name < entry.1) : find? name entries = none := by
  induction entries with
  | nil => rfl
  | cons head rest ih =>
    have differ : name ≠ head.1 := fun equal =>
      String.lt_irrefl head.1 (equal ▸ before head List.mem_cons_self)
    simp only [find?, if_neg differ]
    exact ih fun entry found => before entry (List.mem_cons_of_mem _ found)

/-- A sorted list of bindings is determined by what it binds. -/
theorem eq_of_find?_eq {left right : List (String × α)} (leftSorted : left.Pairwise NameBefore)
    (rightSorted : right.Pairwise NameBefore) (agree : ∀ name, find? name left = find? name right) :
    left = right := by
  induction left generalizing right with
  | nil =>
    cases right with
    | nil => rfl
    | cons head rest => simpa [find?] using agree head.1
  | cons head rest ih =>
    cases right with
    | nil => simpa [find?] using agree head.1
    | cons other more =>
      obtain ⟨key, value⟩ := head
      obtain ⟨key', value'⟩ := other
      obtain ⟨above, tail⟩ := List.pairwise_cons.mp leftSorted
      obtain ⟨above', tail'⟩ := List.pairwise_cons.mp rightSorted
      have equal : key = key' := by
        refine eq_of_not_lt (fun before => ?_) (fun before => ?_)
        · have absent : find? key ((key', value') :: more) = none :=
            find?_eq_none_of_before fun entry found => by
              rcases List.mem_cons.mp found with here | later
              · exact here ▸ before
              · exact String.lt_trans before (above' entry later)
          have found := agree key
          rw [absent] at found
          simp [find?] at found
        · have absent : find? key' ((key, value) :: rest) = none :=
            find?_eq_none_of_before fun entry found => by
              rcases List.mem_cons.mp found with here | later
              · exact here ▸ before
              · exact String.lt_trans before (above entry later)
          have found := agree key'
          rw [absent] at found
          simp [find?] at found
      subst equal
      have same : value = value' := by simpa [find?] using agree key
      subst same
      have later : ∀ name, find? name rest = find? name more := by
        intro name
        by_cases here : name = key
        · subst here
          rw [find?_eq_none_of_before above, find?_eq_none_of_before above']
        · simpa [find?, here] using agree name
      rw [ih tail tail' later]

/-- Maps that bind the same names to the same values are equal. -/
theorem ext_get? {left right : NameMap α} (agree : ∀ name, left.get? name = right.get? name) :
    left = right := by
  obtain ⟨entries, sorted⟩ := left
  obtain ⟨entries', sorted'⟩ := right
  have same : entries = entries' := eq_of_find?_eq sorted sorted' agree
  subst same
  rfl

end NameMap

/-- A finite set of names, listed in order. -/
abbrev NameSet := NameMap Unit

namespace NameSet

/-- The set with one more name. -/
def add (set : NameSet) (name : String) : NameSet :=
  NameMap.insert set name ()

/-- The set of the listed names. -/
def ofList (names : List String) : NameSet :=
  names.foldl add NameMap.empty

/-- The members in order. -/
def toList (set : NameSet) : List String :=
  NameMap.names set

end NameSet

end Dataflow
