import Dataflow.Proofs.Analysis.Run
import Dataflow.Proofs.Graph.Reach

/-!
# The points that a run reaches

A run visits points that paths of edges lead to from the entry, since a visit queues successors of the
visited point only. It stores an input and an output together, and never removes one. So at every moment
the stored points are connected to the entry, and inputs and outputs are stored at the same points
(`explored_of_advances`).

The keys of a table are listed once each (`Table.nodup_keys_set`), so a table of outputs lists each
reached point once.
-/

set_option autoImplicit false

namespace Dataflow

/-! ## The keys of a table -/

namespace Table

variable {κ β : Type} [DecidableEq κ]

/-- The keys with a value, in the order of first writes. -/
def keys (table : Table κ β) : List κ := table.entries.map (·.1)

theorem mem_keys_iff {table : Table κ β} {key : κ} :
    key ∈ table.keys ↔ (table.get? key).isSome = true := by
  obtain ⟨entries⟩ := table
  change key ∈ entries.map (·.1) ↔ (find? key entries).isSome = true
  induction entries with
  | nil => simp [find?]
  | cons head rest ih =>
    by_cases here : head.1 = key
    · simp [find?, here]
    · simp [find?, here, Ne.symm here, ih]

/-- A new key comes last. -/
theorem keys_set (table : Table κ β) (key : κ) (value : β) :
    (table.set key value).keys = if key ∈ table.keys then table.keys else table.keys ++ [key] := by
  obtain ⟨entries⟩ := table
  change (write key value entries).map (·.1) =
    if key ∈ entries.map (·.1) then entries.map (·.1) else entries.map (·.1) ++ [key]
  induction entries with
  | nil => simp [write]
  | cons head rest ih =>
    by_cases here : head.1 = key
    · simp [write, here]
    · rw [write, if_neg here, List.map_cons, ih]
      by_cases later : key ∈ rest.map (·.1)
      · simp [later]
      · simp [later, Ne.symm here]

/-- Writes list no key twice. -/
theorem nodup_keys_set {table : Table κ β} (once : table.keys.Nodup) (key : κ) (value : β) :
    (table.set key value).keys.Nodup := by
  rw [keys_set]
  split
  · exact once
  · next fresh => exact List.concat_eq_append ▸ List.Nodup.concat fresh once

/-- When no key is listed twice, every listed entry is what its key is bound to. -/
theorem get?_eq_some_of_mem {table : Table κ β} (once : table.keys.Nodup) {key : κ} {value : β}
    (listed : (key, value) ∈ table.entries) : table.get? key = some value := by
  obtain ⟨entries⟩ := table
  change find? key entries = some value
  change (entries.map (·.1)).Nodup at once
  induction entries with
  | nil => cases listed
  | cons head rest ih =>
    obtain ⟨fresh, once'⟩ := List.nodup_cons.mp once
    rcases List.mem_cons.mp listed with rfl | later
    · simp [find?]
    · -- The key is listed later, so the first entry has another one.
      have other : head.1 ≠ key := by
        rintro rfl
        exact fresh (List.mem_map.mpr ⟨_, later, rfl⟩)
      rw [find?, if_neg other]
      exact ih later once'

end Table

namespace Analysis

variable {α : Type}

/-- Paths lead from the entry to the queued and the reached points, and inputs and outputs are stored at
the same points, once each. -/
structure Explored (g : Graph) (entry : Point) (run : Run α) : Prop where
  queued : ∀ p ∈ run.queue, g.Connected entry p
  reached : ∀ p ∈ run.outputs.keys, g.Connected entry p
  together : ∀ p, (run.inputs.get? p).isSome = true ↔ (run.outputs.get? p).isSome = true
  once : run.outputs.keys.Nodup

/-- Before the first visit nothing is stored and the entry is queued. -/
theorem explored_initial (g : Graph) (entry : Point) : Explored g entry (.initial entry : Run α) where
  queued := by
    intro p here
    exact List.mem_singleton.mp here ▸ .refl
  reached := by
    intro p stored
    cases stored
  together := fun p => Iff.rfl
  once := List.nodup_nil

variable [DecidableEq α] {A : Analysis α} {config : Config} {f : FunctionDef} {g : Graph}
  {entry : Point}

/-- **A visit queues and stores only what paths lead to.** -/
theorem Explored.advance {run next : Run α} (explored : Explored g entry run)
    (advance : A.Advances config f g entry run next) : Explored g entry next := by
  obtain ⟨p, rest, queue, visited⟩ := advance
  have here : g.Connected entry p := explored.queued p (queue ▸ List.mem_cons_self)
  have later : ∀ q ∈ rest, g.Connected entry q := by
    intro q found
    exact explored.queued q (queue ▸ List.mem_cons_of_mem p found)
  rcases visit_cases visited with ⟨-, inputs, outputs, same⟩ |
    ⟨input, update, output, -, -, -, inputs, ⟨stored, outputs, same⟩ | ⟨-, outputs, same⟩⟩
  · -- The point is passed over: only the queue is shorter.
    constructor
    · exact same ▸ later
    · exact outputs ▸ explored.reached
    · rw [inputs, outputs]
      exact explored.together
    · exact outputs ▸ explored.once
  · -- The output was there before, and so was some input.
    constructor
    · exact same ▸ later
    · exact outputs ▸ explored.reached
    · intro q
      rw [inputs, outputs, Table.get?_set]
      by_cases at_p : q = p
      · subst at_p
        change run.outputs.get? q = some output at stored
        simp [stored]
      · rw [if_neg at_p]
        exact explored.together q
    · exact outputs ▸ explored.once
  · -- Input and output are stored, and the successors of the visited point are queued.
    constructor
    · intro q found
      rw [same, mem_enqueue] at found
      rcases found with before | successor
      · exact later q before
      · exact here.tail (Graph.mem_successors_iff_joins.mp successor)
    · intro q found
      rw [outputs, Table.mem_keys_iff, Table.get?_set] at found
      by_cases at_p : q = p
      · exact at_p ▸ here
      · rw [if_neg at_p] at found
        exact explored.reached q (Table.mem_keys_iff.mpr found)
    · intro q
      rw [inputs, outputs, Table.get?_set, Table.get?_set]
      by_cases at_p : q = p
      · simp [at_p]
      · rw [if_neg at_p, if_neg at_p]
        exact explored.together q
    · rw [outputs]
      exact Table.nodup_keys_set explored.once p output

/-- At every moment of a run the stored points are connected to the entry. -/
theorem explored_of_advances {run : Run α}
    (advances : Relation.ReflTransGen (A.Advances config f g entry) (.initial entry) run) :
    Explored g entry run := by
  induction advances with
  | refl => exact explored_initial g entry
  | tail _ advance ih => exact ih.advance advance

/-- What is known of the points that a result stores. -/
structure ResultExplored (g : Graph) (result : Result α) : Prop where
  reached : ∀ p ∈ result.outputs.keys, ∃ entry ∈ g.entry, g.Connected entry p
  together : ∀ p, (result.inputs.get? p).isSome = true ↔ (result.outputs.get? p).isSome = true
  once : result.outputs.keys.Nodup

/-- **A result stores inputs and outputs at the same points, which paths lead to from the entry.** -/
theorem resultExplored_of_runOn {result : Result α} (ran : A.runOn config f g = .ok result) :
    ResultExplored g result := by
  rcases runOn_eq_ok ran with ⟨-, rfl⟩ | ⟨entry, final, isEntry, advances, -, rfl⟩
  · constructor
    · intro p stored
      cases stored
    · exact fun p => Iff.rfl
    · exact List.nodup_nil
  · have explored := explored_of_advances advances
    constructor
    · intro p stored
      exact ⟨entry, isEntry, explored.reached p stored⟩
    · exact explored.together
    · exact explored.once

end Analysis

end Dataflow
