/-!
# Tables

Finite maps over any keys with decidable equality, listed in the order in which keys were first
written. The view of a table is `get?`; `get?_set` says what a write does to it.
-/

set_option autoImplicit false

namespace Dataflow

/-- A finite map, listed in the order of first writes. -/
structure Table (κ β : Type) where
  entries : List (κ × β)

namespace Table

variable {κ β : Type} [DecidableEq κ]

/-- The table without entries. -/
def empty : Table κ β := ⟨[]⟩

/-- The value of the first entry with a key. -/
def find? (key : κ) : List (κ × β) → Option β
  | [] => none
  | (k, value) :: rest => if k = key then some value else find? key rest

/-- The entries with the value of a key replaced, or added at the end. -/
def write (key : κ) (value : β) : List (κ × β) → List (κ × β)
  | [] => [(key, value)]
  | (k, old) :: rest => if k = key then (k, value) :: rest else (k, old) :: write key value rest

/-- The value of a key. -/
def get? (table : Table κ β) (key : κ) : Option β := find? key table.entries

/-- The table with a key bound to a value. -/
def set (table : Table κ β) (key : κ) (value : β) : Table κ β := ⟨write key value table.entries⟩

/-- Whether a key has a value. -/
def contains (table : Table κ β) (key : κ) : Bool := (table.get? key).isSome

/-- Nothing is bound in the empty table. -/
@[simp] theorem get?_empty (key : κ) : (empty : Table κ β).get? key = none := rfl

/-- Looking a key up after a write to the entries. -/
theorem find?_write (key other : κ) (value : β) (entries : List (κ × β)) :
    find? other (write key value entries) =
      if other = key then some value else find? other entries := by
  induction entries with
  | nil =>
    by_cases same : other = key
    · simp [write, find?, same]
    · simp [write, find?, same, Ne.symm same]
  | cons head rest ih =>
    obtain ⟨k, old⟩ := head
    by_cases here : k = key
    · subst here
      by_cases same : other = k
      · simp [write, find?, same]
      · simp [write, find?, same, Ne.symm same]
    · by_cases first : k = other
      · subst first
        simp [write, find?, here]
      · simp [write, find?, here, first, ih]

/-- A write changes the written key and no other. -/
@[simp] theorem get?_set (table : Table κ β) (key other : κ) (value : β) :
    (table.set key value).get? other = if other = key then some value else table.get? other :=
  find?_write key other value table.entries

end Table

end Dataflow
