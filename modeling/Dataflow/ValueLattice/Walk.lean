import Dataflow.ValueLattice.Basic

/-!
# Walking a lattice

The values of a lattice in breadth-first order from the bottom through the covers above each value.
-/

set_option autoImplicit false

namespace Dataflow.ValueLattice

variable {α : Type} [DecidableEq α]

/-- A queue with the covers above a value that are neither listed nor queued yet. -/
def enqueue (listed : List α) (queue : List α) : List α → List α
  | [] => queue
  | value :: rest =>
    if value ∈ listed ∨ value ∈ queue then enqueue listed queue rest
    else enqueue listed (queue ++ [value]) rest

/-- The walk with `room` values left to list. -/
def walk (L : ValueLattice α) : Nat → (listed queue : List α) → List α
  | 0, listed, _ => listed
  | room + 1, listed, queue =>
    match queue.dropWhile (· ∈ listed) with
    | [] => listed
    | value :: rest =>
      walk L room (listed ++ [value]) (enqueue listed rest (L.successors value))

/-- At most `limit` values of a lattice, nearest to the bottom first. -/
def enumerate (L : ValueLattice α) (limit : Nat) : List α :=
  L.walk limit [] [L.bottom]

end Dataflow.ValueLattice
