/-!
# Lattices of abstract values

A lattice is given by its operations: bounds, join, meet, the strict order and the covers above and
below a value. The operations promise nothing by themselves; the laws they are meant to satisfy are
stated apart from them.
-/

set_option autoImplicit false

namespace Dataflow

/-- The operations of a lattice of abstract values. -/
structure ValueLattice (α : Type) where
  top : α
  bottom : α
  join : α → α → α
  meet : α → α → α
  /-- The strict order. -/
  below : α → α → Bool
  /-- The values directly above a value. -/
  successors : α → List α
  /-- The values directly below a value. -/
  predecessors : α → List α

namespace ValueLattice

variable {α : Type} [DecidableEq α]

/-- The strict order turned around. -/
def above (L : ValueLattice α) (a b : α) : Bool := L.below b a

/-- The order. -/
def atMost (L : ValueLattice α) (a b : α) : Bool := decide (a = b) || L.below a b

/-- The bottom value. -/
def isBottom (L : ValueLattice α) (a : α) : Bool := decide (a = L.bottom)

/-- The top value. -/
def isTop (L : ValueLattice α) (a : α) : Bool := decide (a = L.top)

end ValueLattice

end Dataflow
