import Dataflow.ValueLattice.Walk
import Mathlib.Data.List.Infix
import Mathlib.Data.List.Nodup
import Mathlib.Logic.Relation
import Mathlib.Order.Lattice.Nat

/-!
# The walk is breadth first

The distance of a value is the least number of covers that lead to it from the bottom. A walk keeps its
listed values and its queue in a state (`Walking`) that says three things. Whatever is listed has its
covers listed or queued, so every path to an unlisted value goes through the queue
(`Walking.exists_waiting`). The queued values that are not listed yet stand in the order of their
distances, behind the listed ones. And their distances differ by one at most. So a cover that is new to
the walk is exactly one further away than the value it covers (`Walking.distance_new`), and may go to the
end of the queue.

A value that covers itself is queued while it is being listed, and skipped later (`Walking.skip`). It is
in the queue but counts no longer, which is why the state speaks of unlisted values.

The results hold for all operations of a lattice, whatever laws these satisfy (`breadthFirst_enumerate`).
-/

set_option autoImplicit false

namespace Dataflow.ValueLattice

variable {α : Type} {L : ValueLattice α} {v w : α} {k : Nat}

/-! ## Distance -/

/-- A value is so many covers above the bottom, on some path. -/
inductive Climbs (L : ValueLattice α) : Nat → α → Prop
  | bottom : Climbs L 0 L.bottom
  | cover {k : Nat} {v w : α} : Climbs L k v → w ∈ L.successors v → Climbs L (k + 1) w

/-- The values that covers lead to from the bottom. -/
def Reachable (L : ValueLattice α) : α → Prop :=
  Relation.ReflTransGen (fun v w => w ∈ L.successors v) L.bottom

/-- The least number of covers from the bottom to a reachable value. -/
noncomputable def distance (L : ValueLattice α) (v : α) : Nat := sInf {k | L.Climbs k v}

theorem Reachable.cover (reachable : L.Reachable v) (covers : w ∈ L.successors v) : L.Reachable w :=
  reachable.tail covers

theorem Reachable.exists_climbs (reachable : L.Reachable v) : ∃ k, L.Climbs k v := by
  induction reachable with
  | refl => exact ⟨0, .bottom⟩
  | tail _ covers ih =>
    obtain ⟨k, climbs⟩ := ih
    exact ⟨k + 1, climbs.cover covers⟩

theorem Climbs.distance_le (climbs : L.Climbs k v) : L.distance v ≤ k := Nat.sInf_le climbs

theorem Reachable.climbs (reachable : L.Reachable v) : L.Climbs (L.distance v) v :=
  Nat.sInf_mem reachable.exists_climbs

/-- A cover is at most one further away. -/
theorem Reachable.distance_cover_le (reachable : L.Reachable v) (covers : w ∈ L.successors v) :
    L.distance w ≤ L.distance v + 1 :=
  (reachable.climbs.cover covers).distance_le

variable {listed queue : List α}

/-! ## The state of a walk -/

/-- The state of a walk: the listed values and a queue. What is said of the queue is said of the values
in it that are not listed yet. -/
structure Walking (L : ValueLattice α) (listed queue : List α) : Prop where
  distinct : listed.Nodup
  reachable : ∀ v ∈ listed ++ queue, L.Reachable v
  bottom_mem : L.bottom ∈ listed ++ queue
  /-- The covers of listed values are listed or queued. -/
  closed : ∀ v ∈ listed, ∀ w ∈ L.successors v, w ∈ listed ++ queue
  /-- The listed values stand in the order of their distances. -/
  ordered : listed.Pairwise fun v w => L.distance v ≤ L.distance w
  /-- No queued value is nearer than a listed one. -/
  behind : ∀ v ∈ listed, ∀ w ∈ queue, w ∉ listed → L.distance v ≤ L.distance w
  /-- The queued values stand in the order of their distances. -/
  waiting : queue.Pairwise fun v w => v ∉ listed → w ∉ listed → L.distance v ≤ L.distance w
  /-- The distances of queued values differ by one at most. -/
  span : ∀ v ∈ queue, v ∉ listed → ∀ w ∈ queue, w ∉ listed → L.distance w ≤ L.distance v + 1

theorem walking_start (L : ValueLattice α) : L.Walking [] [L.bottom] where
  distinct := List.nodup_nil
  reachable := by
    intro v member
    rw [List.mem_singleton.mp member]
    exact .refl
  bottom_mem := List.mem_singleton_self _
  closed := by simp
  ordered := .nil
  behind := by simp
  waiting := List.pairwise_singleton _ _
  span := by
    intro v first _ w second _
    rw [List.mem_singleton.mp first, List.mem_singleton.mp second]
    exact Nat.le_succ _

/-- **Every way to an unlisted value leads through the queue**: through the value itself, or through one
that is nearer than the way is long. -/
theorem Walking.exists_waiting (state : L.Walking listed queue) (climbs : L.Climbs k v)
    (unlisted : v ∉ listed) : ∃ u ∈ queue, u ∉ listed ∧ (u = v ∨ L.distance u < k) := by
  -- The first unlisted value on the way is queued: it is the bottom or covers a listed value.
  induction climbs with
  | bottom =>
    exact ⟨_, (List.mem_append.mp state.bottom_mem).resolve_left unlisted, unlisted, Or.inl rfl⟩
  | @cover k v w climbs covers ih =>
    by_cases before : v ∈ listed
    · have queued := (List.mem_append.mp (state.closed v before w covers)).resolve_left unlisted
      exact ⟨w, queued, unlisted, Or.inl rfl⟩
    · obtain ⟨u, queued, fresh, nearer⟩ := ih before
      refine ⟨u, queued, fresh, Or.inr ?_⟩
      rcases nearer with rfl | nearer
      · exact Nat.lt_succ_of_le climbs.distance_le
      · exact Nat.lt_succ_of_lt nearer

/-- A listed value at the head of the queue can be dropped. -/
theorem Walking.skip (state : L.Walking listed (v :: queue)) (already : v ∈ listed) :
    L.Walking listed queue := by
  have keep : ∀ {w}, w ∈ listed ++ v :: queue → w ∈ listed ++ queue := by
    intro w member
    rcases List.mem_append.mp member with here | there
    · exact List.mem_append_left _ here
    · rcases List.mem_cons.mp there with rfl | there
      · exact List.mem_append_left _ already
      · exact List.mem_append_right _ there
  constructor
  case distinct => exact state.distinct
  case reachable =>
    intro w member
    refine state.reachable w ?_
    exact (List.mem_append.mp member).elim (List.mem_append_left _)
      (fun there => List.mem_append_right _ (List.mem_cons_of_mem v there))
  case bottom_mem => exact keep state.bottom_mem
  case closed =>
    intro u here w covers
    exact keep (state.closed u here w covers)
  case ordered => exact state.ordered
  case behind =>
    intro u here w there
    exact state.behind u here w (List.mem_cons_of_mem v there)
  case waiting => exact state.waiting.of_cons
  case span =>
    intro u here fresh w there
    exact state.span u (List.mem_cons_of_mem v here) fresh w (List.mem_cons_of_mem v there)

/-- What waits behind the head of the queue is as far away as the head, or one further. -/
theorem Walking.distance_waiting (state : L.Walking listed (v :: queue)) (fresh : v ∉ listed)
    (queued : w ∈ queue) (unlisted : w ∉ listed) :
    L.distance v ≤ L.distance w ∧ L.distance w ≤ L.distance v + 1 := by
  refine ⟨List.rel_of_pairwise_cons state.waiting queued fresh unlisted, ?_⟩
  exact state.span v List.mem_cons_self fresh w (List.mem_cons_of_mem v queued) unlisted

/-- **A cover that is new to the walk is one further away than the value at the head of the queue.** -/
theorem Walking.distance_new (state : L.Walking listed (v :: queue)) (fresh : v ∉ listed)
    (covers : w ∈ L.successors v) (unlisted : w ∉ listed) (unqueued : w ∉ v :: queue) :
    L.distance w = L.distance v + 1 := by
  have reachable : L.Reachable v := state.reachable v (List.mem_append_right _ List.mem_cons_self)
  refine Nat.le_antisymm (reachable.distance_cover_le covers) ?_
  -- A nearest way to the cover goes through a queued value, none of which is nearer than the head.
  obtain ⟨u, queued, unlisted', nearer⟩ :=
    state.exists_waiting (reachable.cover covers).climbs unlisted
  have nearer : L.distance u < L.distance w := nearer.resolve_left (fun same => unqueued (same ▸ queued))
  have first : L.distance v ≤ L.distance u := by
    rcases List.mem_cons.mp queued with rfl | queued
    · exact Nat.le_refl _
    · exact (state.distance_waiting fresh queued unlisted').1
  exact Nat.lt_of_le_of_lt first nearer

variable [DecidableEq α]

/-! ## Steps -/

/-- The covers of a value are put at the end of the queue, except those that are listed or queued. -/
theorem exists_enqueue (listed queue values : List α) :
    ∃ new, enqueue listed queue values = queue ++ new ∧
      (∀ w ∈ new, w ∈ values ∧ w ∉ listed ∧ w ∉ queue) ∧
      ∀ w ∈ values, w ∈ listed ∨ w ∈ queue ++ new := by
  induction values generalizing queue with
  | nil => exact ⟨[], (List.append_nil queue).symm, by simp, by simp⟩
  | cons value rest ih =>
    rw [enqueue]
    split
    · next known =>
      obtain ⟨new, same, fresh, all⟩ := ih queue
      refine ⟨new, same, ?_, ?_⟩
      · intro w member
        obtain ⟨here, unlisted, unqueued⟩ := fresh w member
        exact ⟨List.mem_cons_of_mem value here, unlisted, unqueued⟩
      · intro w member
        rcases List.mem_cons.mp member with rfl | member
        · exact known.imp_right (List.mem_append_left new)
        · exact all w member
    · next unknown =>
      rw [not_or] at unknown
      obtain ⟨new, same, fresh, all⟩ := ih (queue ++ [value])
      refine ⟨value :: new, by rw [same, List.append_assoc, List.singleton_append], ?_, ?_⟩
      · intro w member
        rcases List.mem_cons.mp member with rfl | member
        · exact ⟨List.mem_cons_self, unknown⟩
        · obtain ⟨here, unlisted, unqueued⟩ := fresh w member
          exact ⟨List.mem_cons_of_mem value here, unlisted,
            fun queued => unqueued (List.mem_append_left _ queued)⟩
      · intro w member
        rw [← List.singleton_append, ← List.append_assoc]
        rcases List.mem_cons.mp member with rfl | member
        · exact Or.inr (List.mem_append_left _ (List.mem_append_right _ List.mem_cons_self))
        · exact all w member

/-- The listed values at the head of the queue can be dropped. -/
theorem Walking.dropWhile (state : L.Walking listed queue) :
    L.Walking listed (queue.dropWhile (· ∈ listed)) := by
  induction queue with
  | nil => exact state
  | cons v rest ih =>
    rw [List.dropWhile_cons]
    split
    · next already => exact ih (state.skip (of_decide_eq_true already))
    · exact state

/-- **Listing the value at the head of the queue keeps the state of a walk.** -/
theorem Walking.list (state : L.Walking listed (v :: queue)) (fresh : v ∉ listed) :
    L.Walking (listed ++ [v]) (enqueue listed queue (L.successors v)) := by
  obtain ⟨new, same, newly, all⟩ := exists_enqueue listed queue (L.successors v)
  rw [same]
  have here : v ∈ listed ++ v :: queue := List.mem_append_right _ List.mem_cons_self
  have reachable : L.Reachable v := state.reachable v here
  -- What was listed or queued still is.
  have keep : ∀ {w}, w ∈ listed ++ v :: queue → w ∈ listed ++ [v] ++ (queue ++ new) := by
    intro w member
    simp only [List.mem_append, List.mem_cons, List.not_mem_nil, or_false] at member ⊢
    tauto
  have unlisted : ∀ {w}, w ∉ listed ++ [v] → w ∉ listed ∧ w ≠ v := by
    intro w outside
    rw [List.mem_append, List.mem_singleton, not_or] at outside
    exact outside
  have last : ∀ w ∈ new, w ∉ listed ++ [v] → L.distance w = L.distance v + 1 := by
    intro w added outside
    obtain ⟨outside, different⟩ := unlisted outside
    obtain ⟨covers, -, unqueued⟩ := newly w added
    refine state.distance_new fresh covers outside ?_
    rw [List.mem_cons, not_or]
    exact ⟨different, unqueued⟩
  -- All that wait now are between the distance of the value and one more.
  have between : ∀ w ∈ queue ++ new, w ∉ listed ++ [v] →
      L.distance v ≤ L.distance w ∧ L.distance w ≤ L.distance v + 1 := by
    intro w member outside
    rcases List.mem_append.mp member with old | added
    · exact state.distance_waiting fresh old (unlisted outside).1
    · rw [last w added outside]
      exact ⟨Nat.le_succ _, Nat.le_refl _⟩
  constructor
  case distinct => exact List.nodup_append_comm.mp (List.nodup_cons.mpr ⟨fresh, state.distinct⟩)
  case reachable =>
    intro w member
    rcases List.mem_append.mp member with old | waits
    · refine state.reachable w ?_
      rcases List.mem_append.mp old with old | old
      · exact List.mem_append_left _ old
      · exact List.mem_singleton.mp old ▸ here
    · rcases List.mem_append.mp waits with old | added
      · exact state.reachable w (List.mem_append_right _ (List.mem_cons_of_mem v old))
      · exact reachable.cover (newly w added).1
  case bottom_mem => exact keep state.bottom_mem
  case closed =>
    intro u member w covers
    rcases List.mem_append.mp member with old | old
    · exact keep (state.closed u old w covers)
    · rw [List.mem_singleton.mp old] at covers
      rcases all w covers with known | waits
      · exact List.mem_append_left _ (List.mem_append_left _ known)
      · exact List.mem_append_right _ waits
  case ordered =>
    refine List.pairwise_append.mpr ⟨state.ordered, List.pairwise_singleton _ _, ?_⟩
    intro u old w single
    rw [List.mem_singleton.mp single]
    exact state.behind u old v List.mem_cons_self fresh
  case behind =>
    intro u member w waits outside
    have further := (between w waits outside).1
    rcases List.mem_append.mp member with old | old
    · exact Nat.le_trans (state.behind u old v List.mem_cons_self fresh) further
    · rw [List.mem_singleton.mp old]
      exact further
  case waiting =>
    refine List.pairwise_append.mpr ⟨?_, ?_, ?_⟩
    · refine state.waiting.of_cons.imp ?_
      intro u w order outside outside'
      exact order (unlisted outside).1 (unlisted outside').1
    · refine List.pairwise_of_forall_mem_list ?_
      intro u added w added' outside outside'
      rw [last u added outside, last w added' outside']
    · intro u old w added outside outside'
      rw [last w added outside']
      exact (between u (List.mem_append_left _ old) outside).2
  case span =>
    intro u waits outside w waits' outside'
    have nearest := (between u waits outside).1
    have furthest := (between w waits' outside').2
    omega

/-! ## Whole walks -/

/-- What a walk does with some room left: it lists the first unlisted value of the queue, if any. -/
theorem walk_succ_cases (L : ValueLattice α) (room : Nat) (listed queue : List α) :
    (queue.dropWhile (· ∈ listed) = [] ∧ L.walk (room + 1) listed queue = listed) ∨
    ∃ v rest, queue.dropWhile (· ∈ listed) = v :: rest ∧ v ∉ listed ∧
      L.walk (room + 1) listed queue =
        L.walk room (listed ++ [v]) (enqueue listed rest (L.successors v)) := by
  cases dropped : queue.dropWhile (· ∈ listed) with
  | nil => exact Or.inl ⟨rfl, by rw [walk, dropped]⟩
  | cons v rest =>
    refine Or.inr ⟨v, rest, rfl, ?_, by rw [walk, dropped]⟩
    have kept : queue.dropWhile (· ∈ listed) ≠ [] := by
      rw [dropped]
      exact List.cons_ne_nil v rest
    have head := List.head_dropWhile_not (· ∈ listed) kept
    simpa [dropped] using head

/-- **A walk keeps its state until there is no room or nothing waits any more.** -/
theorem Walking.walk (state : L.Walking listed queue) (room : Nat) :
    ∃ queue', L.Walking (L.walk room listed queue) queue' ∧
      (L.walk room listed queue).length ≤ listed.length + room ∧
      ((L.walk room listed queue).length = listed.length + room ∨ queue' = []) := by
  induction room generalizing listed queue with
  | zero => exact ⟨queue, state, Nat.le_refl _, Or.inl rfl⟩
  | succ room ih =>
    have dropped := state.dropWhile
    rcases L.walk_succ_cases room listed queue with ⟨empty, same⟩ | ⟨v, rest, next, fresh, same⟩
    · rw [same]
      rw [empty] at dropped
      exact ⟨[], dropped, Nat.le_add_right _ _, Or.inr rfl⟩
    · rw [next] at dropped
      obtain ⟨queue', after, most, ends⟩ := ih (dropped.list fresh)
      rw [same]
      rw [List.length_append, List.length_singleton, Nat.add_assoc, Nat.add_comm 1 room] at most ends
      exact ⟨queue', after, most, ends⟩

/-- When nothing waits, everything reachable is listed. -/
theorem Walking.mem_of_reachable (state : L.Walking listed []) (reachable : L.Reachable v) :
    v ∈ listed := by
  by_contra unlisted
  obtain ⟨u, queued, -⟩ := state.exists_waiting reachable.climbs unlisted
  exact List.not_mem_nil queued

/-- A walk goes on from what is listed. -/
theorem prefix_walk (L : ValueLattice α) (room : Nat) (listed queue : List α) :
    listed <+: L.walk room listed queue := by
  induction room generalizing listed queue with
  | zero => exact List.prefix_refl _
  | succ room ih =>
    rcases L.walk_succ_cases room listed queue with ⟨-, same⟩ | ⟨v, rest, -, -, same⟩
    · rw [same]
    · rw [same]
      exact (List.prefix_append listed [v]).trans (ih _ _)

/-- With more room a walk only goes on. -/
theorem walk_prefix_succ (L : ValueLattice α) (room : Nat) (listed queue : List α) :
    L.walk room listed queue <+: L.walk (room + 1) listed queue := by
  induction room generalizing listed queue with
  | zero => exact L.prefix_walk 1 listed queue
  | succ room ih =>
    rcases L.walk_succ_cases (room + 1) listed queue with ⟨empty, same⟩ | ⟨v, rest, next, -, same⟩
    · rw [same, ValueLattice.walk, empty]
    · rw [same, ValueLattice.walk, next]
      exact ih _ _

/-- Lists of values nearest to the bottom: distinct and reachable values in the order of their distances,
at most as many as the limit and from the bottom on, with every reachable value among them when there are
fewer than the limit. -/
structure BreadthFirst (L : ValueLattice α) (limit : Nat) (values : List α) : Prop where
  distinct : values.Nodup
  length_le : values.length ≤ limit
  head_eq : 0 < limit → values.head? = some L.bottom
  reachable : ∀ v ∈ values, L.Reachable v
  ordered : values.Pairwise fun v w => L.distance v ≤ L.distance w
  complete : values.length < limit → ∀ v, L.Reachable v → v ∈ values

/-- **The values of a lattice are enumerated breadth first.** -/
theorem breadthFirst_enumerate (L : ValueLattice α) (limit : Nat) :
    L.BreadthFirst limit (L.enumerate limit) := by
  obtain ⟨queue, state, most, ends⟩ := L.walking_start.walk limit
  rw [List.length_nil, Nat.zero_add] at most ends
  constructor
  case distinct => exact state.distinct
  case length_le => exact most
  case head_eq =>
    intro room
    -- The first step lists the bottom, and the rest of the walk goes on from there.
    obtain ⟨left, rfl⟩ := Nat.exists_eq_succ_of_ne_zero (Nat.ne_of_gt room)
    obtain ⟨rest, same⟩ := L.prefix_walk left [L.bottom] (enqueue [] [] (L.successors L.bottom))
    have listed : L.enumerate (left + 1) = [L.bottom] ++ rest := same.symm
    rw [listed]
    rfl
  case reachable =>
    intro v member
    exact state.reachable v (List.mem_append_left _ member)
  case ordered => exact state.ordered
  case complete =>
    intro short v reachable
    have empty : queue = [] := ends.resolve_left (Nat.ne_of_lt short)
    subst empty
    exact state.mem_of_reachable reachable

end Dataflow.ValueLattice
