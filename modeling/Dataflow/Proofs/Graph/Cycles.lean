import Dataflow.Program
import Dataflow.Proofs.Graph.Descent

/-!
# Cycles

The ways on from an agenda lead to a later agenda of the body, to a loop, or to what follows the body
(`forward_of_way`). So an edge that does not lead to a loop leads from a statement to one that is written
after it (`forward_of_edge`), and a point that stands for one statement only is reached by going forward
in the source unless it is a loop. Every cycle goes through a loop head or through a point that stands
for several statements.

A point stands for several statements when equal statements are written on one line. Such a point can
lead to itself without any loop (`equal_statements_close_cycle`).
-/

set_option autoImplicit false

namespace Dataflow

namespace Stmt

/-! ## Going on leads forward or to a loop -/

/-- A list of statements that begins with a loop. -/
def BeginsWithLoop (todo : List Stmt) : Prop :=
  ∃ s ∈ todo.head?, s.isLoop = true

theorem beginsWithLoop_loop (line : Nat) (condition : Expr) (body rest : List Stmt) :
    BeginsWithLoop (loop line condition body :: rest) :=
  ⟨loop line condition body, rfl, rfl⟩

mutual

/-- The ways on from the agendas at a statement lead to its later agendas, to a loop or to what follows
it. -/
theorem forward_of_wayOf (after : List Stmt) : ∀ (s : Stmt) {todo next : List Stmt} {label : Label},
    todo ∈ agendasOf after s → (label, next) ∈ ways todo →
      [todo, next].Sublist (agendasOf after s) ∨ BeginsWithLoop next ∨ next = after
  | assign _ _ _, todo, next, label, here, way => by
    rw [agendasOf, List.mem_singleton] at here
    subst here
    simp only [ways, List.mem_singleton, Prod.mk.injEq] at way
    exact Or.inr (Or.inr way.2)
  | ifElse line condition thenBody elseBody, todo, next, label, here, way => by
    rw [agendasOf, List.mem_cons, List.mem_append] at here
    rw [agendasOf]
    rcases here with rfl | inThen | inElse
    · simp only [ways, List.mem_cons, Prod.mk.injEq, List.not_mem_nil, or_false] at way
      rcases way with ⟨-, rfl⟩ | ⟨-, rfl⟩
      · refine (append_mem_agendas after thenBody).imp (fun inside => ?_) Or.inr
        exact (List.singleton_sublist.mpr (List.mem_append_left _ inside)).cons_cons _
      · refine (append_mem_agendas after elseBody).imp (fun inside => ?_) Or.inr
        exact (List.singleton_sublist.mpr (List.mem_append_right _ inside)).cons_cons _
    · refine (forward_of_way after thenBody inThen way).imp (fun later => ?_) id
      exact (later.trans (List.sublist_append_left _ _)).cons _
    · refine (forward_of_way after elseBody inElse way).imp (fun later => ?_) id
      exact (later.trans (List.sublist_append_right _ _)).cons _
  | loop line condition body, todo, next, label, here, way => by
    rw [agendasOf, List.mem_cons] at here
    rw [agendasOf]
    rcases here with rfl | inBody
    · simp only [ways, List.mem_cons, Prod.mk.injEq, List.not_mem_nil, or_false] at way
      rcases way with ⟨-, rfl⟩ | ⟨-, rfl⟩
      · rcases append_mem_agendas (loop line condition body :: after) body with inside | empty
        · exact Or.inl ((List.singleton_sublist.mpr inside).cons_cons _)
        · rw [empty]
          exact Or.inr (Or.inl (beginsWithLoop_loop line condition body after))
      · exact Or.inr (Or.inr rfl)
    · -- What follows the body is the loop itself.
      rcases forward_of_way (loop line condition body :: after) body inBody way with
        later | looping | rfl
      · exact Or.inl (later.cons _)
      · exact Or.inr (Or.inl looping)
      · exact Or.inr (Or.inl (beginsWithLoop_loop line condition body after))
  | ret _ _, todo, next, label, here, way => by
    rw [agendasOf, List.mem_singleton] at here
    subst here
    simp [ways] at way

/-- The ways on from the agendas of a sequence lead to its later agendas, to a loop or to what follows
it. -/
theorem forward_of_way (after : List Stmt) : ∀ (ss : List Stmt) {todo next : List Stmt} {label : Label},
    todo ∈ agendas after ss → (label, next) ∈ ways todo →
      [todo, next].Sublist (agendas after ss) ∨ BeginsWithLoop next ∨ next = after
  | [], _, _, _, here, _ => by simp [agendas] at here
  | s :: rest, todo, next, label, here, way => by
    rw [agendas, List.mem_append] at here
    rw [agendas]
    rcases here with inFirst | inRest
    · -- What follows the first statement is the rest, which is the next agenda unless it is empty.
      rcases forward_of_wayOf (rest ++ after) s inFirst way with later | looping | rfl
      · exact Or.inl (later.trans (List.sublist_append_left _ _))
      · exact Or.inr (Or.inl looping)
      · refine (append_mem_agendas after rest).imp (fun inside => ?_) Or.inr
        exact (List.singleton_sublist.mpr inFirst).append (List.singleton_sublist.mpr inside)
    · refine (forward_of_way after rest inRest way).imp (fun later => ?_) id
      exact later.trans (List.sublist_append_right _ _)

end

end Stmt

namespace Graph

open Stmt

variable {f : FunctionDef}

/-- **An edge leads to a loop or forward in the source.** -/
theorem forward_of_edge {e : Edge} (found : e ∈ (build f).edges) :
    e.target.statement.isLoop = true ∨
      [e.source.statement, e.target.statement].Sublist (occurrencesIn f.body) := by
  obtain ⟨todo, agenda, s, head, way, onward, t, next, rfl⟩ := mem_edges_build.mp found
  rcases forward_of_way [] f.body agenda onward with later | ⟨looping, first, isLoop⟩ | finished
  · -- The statements of a body are the heads of its agendas, in the same order.
    have heads := (later.map List.head?).filterMap id
    rw [map_head?_agendas] at heads
    simp only [List.map_cons, List.map_nil, Option.mem_def.mp head, Option.mem_def.mp next,
      List.filterMap_map, Function.id_comp, List.filterMap_some] at heads
    exact Or.inr heads
  · rw [Option.mem_unique next first]
    exact Or.inl isLoop
  · rw [finished] at next
    cases next

/-- The target of an edge stands for a statement of the body. -/
theorem target_occurs {e : Edge} (found : e ∈ (build f).edges) :
    e.target.statement ∈ occurrencesIn f.body :=
  mem_occurrencesIn_of_visitable (Or.inr ⟨e, found, rfl⟩)

/-! ## Positions -/

/-- The place of a point in the source: the number of statements written before the first one it stands
for. -/
def position (f : FunctionDef) (p : Point) : Nat :=
  (occurrencesIn f.body).idxOf p.statement

/-- A point that stands for several statements of the body. -/
def Repeats (f : FunctionDef) (p : Point) : Prop :=
  1 < (occurrencesIn f.body).count p.statement

/-- Of two entries of a list, a later one that is listed once is found later. -/
theorem idxOf_lt_of_sublist {s t : Stmt} {statements : List Stmt} (later : [s, t].Sublist statements)
    (once : statements.count t ≤ 1) : statements.idxOf s < statements.idxOf t := by
  induction statements with
  | nil => cases later
  | cons first rest ih =>
    have inRest : t ∈ rest := by
      cases later with
      | cons _ later => exact later.subset (by simp)
      | cons_cons _ later => exact later.subset (by simp)
    -- The first entry is not `t`, which is listed in the rest.
    have different : first ≠ t := by
      rintro rfl
      have listed := List.count_pos_iff.mpr inRest
      rw [List.count_cons_self] at once
      omega
    rw [List.count_cons_of_ne different] at once
    rw [List.idxOf_cons_ne _ different]
    cases later with
    | cons _ later =>
      have before := ih later once
      by_cases same : first = s
      · rw [same, List.idxOf_cons_self]
        omega
      · rw [List.idxOf_cons_ne _ same]
        omega
    | cons_cons _ later =>
      rw [List.idxOf_cons_self]
      omega

/-- **An edge that does not lead to a later place leads to a loop head or to a point that stands for
several statements.** -/
theorem head_or_repeats_of_edge {e : Edge} (found : e ∈ (build f).edges)
    (level : ¬ position f e.source < position f e.target) :
    (build f).isLoopHead e.target = true ∨ Repeats f e.target := by
  rcases forward_of_edge found with loops | later
  · have listed : e.target ∈ (build f).points := mem_points_of_occurrence (target_occurs found)
    exact Or.inl (by simp [isLoopHead, listed, loops])
  · refine Or.inr (Nat.lt_of_not_le fun once => ?_)
    exact level (idxOf_lt_of_sublist later once)

/-! ## Cycles -/

/-- A cycle: edges of a graph that follow one another and lead back to where they start. -/
structure IsCycle (g : Graph) (cycle : List Edge) : Prop where
  listed : ∀ e ∈ cycle, e ∈ g.edges
  joined : cycle.IsChain fun e next => e.target = next.source
  returns : ∃ first ∈ cycle.head?, ∃ last ∈ cycle.getLast?, last.target = first.source

/-- Edges that each lead to a higher point, one after another, lead to a point above their start. -/
theorem lt_of_isChain (height : Point → Nat) :
    ∀ (path : List Edge), (path.IsChain fun e next => e.target = next.source) →
      (∀ e ∈ path, height e.source < height e.target) →
      ∀ first ∈ path.head?, ∀ last ∈ path.getLast?, height first.source < height last.target := by
  intro path joined climbs first starts last ends
  induction path generalizing first with
  | nil => cases starts
  | cons e rest ih =>
    cases starts
    have step := climbs e List.mem_cons_self
    cases rest with
    | nil =>
      cases ends
      exact step
    | cons next more =>
      have meets := List.isChain_cons_cons.mp joined
      have onward := ih meets.2 (fun e' there => climbs e' (List.mem_cons_of_mem _ there)) next rfl
        (by simpa using ends)
      rw [meets.1] at step
      exact Nat.lt_trans step onward

/-- A cycle leads to some point that is not above where its edge starts. -/
theorem IsCycle.exists_descent {g : Graph} {cycle : List Edge} (closed : IsCycle g cycle)
    (height : Point → Nat) : ∃ e ∈ cycle, ¬ height e.source < height e.target := by
  -- Otherwise every edge climbs, and the cycle ends above where it starts.
  apply Classical.byContradiction
  intro none
  obtain ⟨first, starts, last, ends, returns⟩ := closed.returns
  have climbs : ∀ e ∈ cycle, height e.source < height e.target := by
    intro e there
    exact Classical.byContradiction fun level => none ⟨e, there, level⟩
  have above := lt_of_isChain height cycle closed.joined climbs first starts last ends
  rw [returns] at above
  exact Nat.lt_irrefl _ above

/-- A cycle goes through a loop head or through a point that stands for several statements. -/
theorem IsCycle.exists_head_or_repeats {cycle : List Edge} (closed : IsCycle (build f) cycle) :
    ∃ e ∈ cycle, (build f).isLoopHead e.target = true ∨ Repeats f e.target := by
  obtain ⟨e, there, level⟩ := closed.exists_descent (position f)
  exact ⟨e, there, head_or_repeats_of_edge (closed.listed e there) level⟩

/-- When no statement occurs twice, a cycle goes through a loop head. -/
theorem IsCycle.exists_head (distinct : (occurrencesIn f.body).Nodup) {cycle : List Edge}
    (closed : IsCycle (build f) cycle) : ∃ e ∈ cycle, (build f).isLoopHead e.target = true := by
  obtain ⟨e, there, head | repeats⟩ := closed.exists_head_or_repeats
  · exact ⟨e, there, head⟩
  · exact absurd repeats (Nat.not_lt.mpr (List.nodup_iff_count_le_one.mp distinct _))

/-- **Cycles go through loop heads or through points that stand for several statements.** No other point
has an edge into it from the same or a later place of the source. When no statement occurs twice, every
cycle goes through a loop head, and there is none when there are no loops. -/
theorem cycles_pass_loops_or_repeats (f : FunctionDef) :
    (∀ cycle, IsCycle (build f) cycle →
      ∃ e ∈ cycle, (build f).isLoopHead e.target = true ∨ Repeats f e.target) ∧
    (∀ e ∈ (build f).edges, position f e.target ≤ position f e.source →
      (build f).isLoopHead e.target = true ∨ Repeats f e.target) ∧
    ((occurrencesIn f.body).Nodup →
      (∀ cycle, IsCycle (build f) cycle → ∃ e ∈ cycle, (build f).isLoopHead e.target = true) ∧
      ((∀ s ∈ occurrencesIn f.body, s.isLoop = false) → ∀ cycle, ¬ IsCycle (build f) cycle)) := by
  refine ⟨fun cycle closed => closed.exists_head_or_repeats, fun e found before => ?_,
    fun distinct => ⟨fun cycle closed => closed.exists_head distinct, ?_⟩⟩
  · exact head_or_repeats_of_edge found (Nat.not_lt.mpr before)
  · intro noLoops cycle closed
    obtain ⟨e, there, head⟩ := closed.exists_head distinct
    have plain := noLoops _ (target_occurs (closed.listed e there))
    simp [isLoopHead, plain] at head

/-- In one line without equal statements, the cycle of a loop goes through the loop, and without a loop
there is no cycle. -/
theorem distinct_statements_cycle_through_loop :
    (∃ f, Program.parseSingle "function f() \x7b while (x < 3) \x7b x = x + 1; \x7d \x7d" = .ok f ∧
      (occurrencesIn f.body).Nodup ∧
      ∃ cycle, IsCycle (build f) cycle ∧ ∃ e ∈ cycle, (build f).isLoopHead e.target = true) ∧
    (∃ f, Program.parseSingle "function f() \x7b x = 1; return x; \x7d" = .ok f ∧
      (occurrencesIn f.body).Nodup ∧ (∀ s ∈ occurrencesIn f.body, s.isLoop = false) ∧
      ∀ cycle, ¬ IsCycle (build f) cycle) := by
  constructor
  · let step : Stmt := .assign 1 "x" (.arith (.var "x") .add (.int 1))
    let condition : Expr := .compare (.var "x") .lt (.int 3)
    let head : Stmt := .loop 1 condition [step]
    let f := FunctionDef.make 1 "f" [] [head]
      (some "function f() \x7b while (x < 3) \x7b x = x + 1; \x7d \x7d")
    let cycle : List Edge :=
      [⟨⟨head⟩, ⟨step⟩, ⟨condition, .whenTrue⟩⟩, ⟨⟨step⟩, ⟨head⟩, .fallthrough⟩]
    have distinct : (occurrencesIn f.body).Nodup := by decide +kernel
    have closed : IsCycle (build f) cycle :=
      ⟨by decide +kernel, by simp [cycle], ⟨_, rfl, _, rfl, rfl⟩⟩
    obtain ⟨-, -, whenDistinct⟩ := cycles_pass_loops_or_repeats f
    exact ⟨f, by decide +kernel, distinct, cycle, closed, (whenDistinct distinct).1 cycle closed⟩
  · let f := FunctionDef.make 1 "f" [] [.assign 1 "x" (.int 1), .ret 1 (.var "x")]
      (some "function f() \x7b x = 1; return x; \x7d")
    have distinct : (occurrencesIn f.body).Nodup := by decide +kernel
    have noLoops : ∀ s ∈ occurrencesIn f.body, s.isLoop = false := by decide +kernel
    obtain ⟨-, -, whenDistinct⟩ := cycles_pass_loops_or_repeats f
    exact ⟨f, by decide +kernel, distinct, noLoops, (whenDistinct distinct).2 noLoops⟩

/-- Equal statements on one line are one point, which leads to itself though there is no loop. -/
theorem equal_statements_close_cycle :
    ∃ f, Program.parseSingle "function f() \x7b x = 1; x = 1; \x7d" = .ok f ∧
      (∃ cycle, IsCycle (build f) cycle) ∧ ∀ p ∈ (build f).points, p.statement.isLoop = false := by
  let s : Stmt := .assign 1 "x" (.int 1)
  refine ⟨FunctionDef.make 1 "f" [] [s, s] (some "function f() \x7b x = 1; x = 1; \x7d"),
    by decide +kernel, ⟨[⟨⟨s⟩, ⟨s⟩, .fallthrough⟩], ?_⟩, by decide +kernel⟩
  exact ⟨by decide +kernel, by simp, ⟨_, rfl, _, rfl, rfl⟩⟩

end Graph

end Dataflow
