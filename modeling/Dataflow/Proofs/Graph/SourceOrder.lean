import Dataflow.Proofs.Graph.History
import Dataflow.Proofs.Graph.Reach

/-!
# Graphs list statements in source order

The points of a function's graph are the statements of its body, each before the ones inside it, where
only the first of equal statements is listed. So the first point on a line is the first statement there
(`points_are_statements_in_order`).

The graph of a nested body begins with the edge that leads into it, and so lists the statement around it
out of order. That has no effect, because the graph is merged into one that lists this statement already.
The induction therefore compares lists of points after some known ones, up to later copies
(`distinct_ofSequence`).
-/

set_option autoImplicit false

namespace Dataflow.Graph

open Stmt Analysis

/-! ## Lists without later copies -/

theorem distinct_filter (p : Point → Bool) (points : List Point) :
    distinct (points.filter p) = (distinct points).filter p := by
  induction points with
  | nil => rfl
  | cons q rest ih =>
    rw [distinct, List.filter_cons]
    split
    · next kept => rw [distinct, ih, List.filter_cons_of_pos kept, List.filter_comm]
    · next dropped =>
      rw [ih, List.filter_cons_of_neg dropped, List.filter_filter]
      refine List.filter_congr fun r _ => ?_
      by_cases same : r = q
      · simp [same, dropped]
      · simp [same]

/-- What follows a list adds what is missing from it. -/
theorem distinct_append (points more : List Point) :
    distinct (points ++ more) = distinct points ++ missing points (distinct more) := by
  induction points with
  | nil => simp [distinct, missing]
  | cons p rest ih =>
    rw [List.cons_append, distinct, ih, distinct, List.cons_append, List.filter_append, missing, missing,
      List.filter_filter]
    congr 2
    refine List.filter_congr fun q _ => ?_
    simp [not_or]

theorem distinct_of_nodup {points : List Point} (once : points.Nodup) : distinct points = points := by
  induction points with
  | nil => rfl
  | cons p rest ih =>
    obtain ⟨fresh, later⟩ := List.nodup_cons.mp once
    rw [distinct, ih later, List.filter_eq_self.mpr]
    intro q listed
    exact decide_eq_true fun same => fresh (same ▸ listed)

/-- Points that are listed before add nothing. -/
theorem distinct_append_of_subset {points more : List Point} (known : ∀ p ∈ more, p ∈ points) :
    distinct (points ++ more) = distinct points := by
  rw [distinct_append, missing_eq_nil, List.append_nil]
  intro p listed
  exact known p (mem_distinct.mp listed)

theorem distinct_append_congr {points points' : List Point} (same : distinct points = distinct points')
    (more : List Point) : distinct (points ++ more) = distinct (points' ++ more) := by
  have members : ∀ p, p ∈ points ↔ p ∈ points' := by
    intro p
    rw [← mem_distinct, same, mem_distinct]
  rw [distinct_append, distinct_append, same]
  congr 1
  refine List.filter_congr fun p _ => ?_
  simp [members p]

/-- Leaving out what is known before changes nothing. -/
theorem distinct_append_missing {known points : List Point} (within : ∀ p ∈ known, p ∈ points)
    (more : List Point) : distinct (points ++ missing known more) = distinct (points ++ more) := by
  rw [distinct_append, distinct_append]
  congr 1
  rw [missing, missing, missing, distinct_filter, List.filter_filter]
  refine List.filter_congr fun p _ => ?_
  by_cases listed : p ∈ points
  · simp [listed]
  · have unknown : p ∉ known := fun found => listed (within p found)
    simp [listed, unknown]

theorem distinct_append_distinct (points more : List Point) :
    distinct (points ++ distinct more) = distinct (points ++ more) := by
  rw [distinct_append, distinct_append, distinct_of_nodup (nodup_distinct more)]

/-- The first point that passes a test is the first of its copies. -/
theorem find?_distinct (test : Point → Bool) (points : List Point) :
    (distinct points).find? test = points.find? test := by
  induction points with
  | nil => rfl
  | cons p rest ih =>
    rw [distinct, List.find?_cons, List.find?_cons]
    cases passes : test p with
    | true => rfl
    | false =>
      dsimp only
      rw [List.find?_filter, ← ih]
      congr 1
      funext q
      by_cases same : q = p
      · simp [same, passes]
      · simp [same]

/-! ## Points of composed graphs -/

section Composed

variable (known : List Point) (g : Graph)

theorem distinct_addPoint (p : Point) :
    distinct (known ++ (g.addPoint p).points) = distinct (known ++ g.points ++ [p]) := by
  rw [points_addPoint, ← List.append_assoc, distinct_append_missing]
  exact fun q listed => List.mem_append_right known listed

theorem distinct_merge {h : Graph} (fine : h.WellFormed) :
    distinct (known ++ (g.merge h).points) = distinct (known ++ g.points ++ h.points) := by
  rw [fine.merge_eq g, ← List.append_assoc, distinct_append_missing]
  exact fun q listed => List.mem_append_right known listed

theorem points_addEdge (e : Edge) :
    (g.addEdge e).points = ((g.addPoint e.source).addPoint e.target).points := by
  unfold addEdge
  dsimp only
  split <;> rfl

/-- Edges between known points add no point. -/
theorem distinct_connect {exits : List Exit} {target : Point}
    (sources : ∀ exit ∈ exits, exit.source ∈ known ++ g.points) (listed : target ∈ known ++ g.points) :
    distinct (known ++ (g.connect exits target).points) = distinct (known ++ g.points) := by
  rw [connect]
  induction exits generalizing g with
  | nil => rfl
  | cons exit rest ih =>
    have kept : ∀ q ∈ known ++ g.points, q ∈ known ++ (g.addEdge (exit.edgeTo target)).points := by
      intro q found
      rcases List.mem_append.mp found with before | own
      · exact List.mem_append_left _ before
      · exact List.mem_append_right _ (mem_points_addEdge own)
    rw [List.foldl_cons, ih _ (fun other later => kept _ (sources other (List.mem_cons_of_mem _ later)))
      (kept target listed), points_addEdge, distinct_addPoint]
    have first : distinct (known ++ (g.addPoint exit.source).points) = distinct (known ++ g.points) := by
      rw [distinct_addPoint]
      refine distinct_append_of_subset ?_
      simpa using sources exit List.mem_cons_self
    refine (distinct_append_congr first _).trans (distinct_append_of_subset ?_)
    simpa [Exit.edgeTo] using listed

end Composed

/-! ## The points of a function's graph -/

mutual

/-- The exits of a statement are at points of its graph. -/
theorem source_mem_ofStatement : ∀ s : Stmt, ∀ exit ∈ (ofStatement s).1,
    exit.source ∈ (ofStatement s).2.points
  | .assign line target value, exit, listed => by
    rw [ofStatement, List.mem_singleton] at listed
    simp [ofStatement, listed, Exit.fallthrough]
  | .ifElse line condition thenBody elseBody, exit, listed => by
    have here : ∀ body h, (⟨.ifElse line condition thenBody elseBody⟩ : Point) ∈
        (((empty.addPoint ⟨.ifElse line condition thenBody elseBody⟩).merge body).merge h).points :=
      fun body h => mem_points_merge (.inl (mem_points_merge (.inl (by simp))))
    rw [ofStatement, List.mem_append] at listed
    rw [ofStatement]
    rcases listed with yes | no
    · rcases source_mem_ofSequence thenBody _ _ exit yes with first | inside
      · rw [List.mem_singleton.mp first]
        exact here _ _
      · exact mem_points_merge (.inl (mem_points_merge (.inr inside)))
    · rcases source_mem_ofSequence elseBody _ _ exit no with first | inside
      · rw [List.mem_singleton.mp first]
        exact here _ _
      · exact mem_points_merge (.inr inside)
  | .loop line condition body, exit, listed => by
    rw [ofStatement, List.mem_singleton] at listed
    rw [ofStatement, listed]
    exact mem_points_connect (mem_points_merge (.inl (by simp)))
  | .ret line value, exit, listed => by
    rw [ofStatement] at listed
    cases listed

/-- The exits of a sequence are those it started with, or at points of its graph. -/
theorem source_mem_ofSequence : ∀ (ss : List Stmt) (g : Graph) (exits : List Exit),
    ∀ exit ∈ (ofSequence g exits ss).1, exit ∈ exits ∨ exit.source ∈ (ofSequence g exits ss).2.points
  | [], g, exits, exit, listed => .inl listed
  | s :: rest, g, exits, exit, listed => by
    rw [ofSequence] at listed ⊢
    rcases source_mem_ofSequence rest _ _ exit listed with own | later
    · exact .inr (mem_points_ofSequence rest _ _
        (.inl (mem_points_merge (.inr (source_mem_ofStatement s exit own)))))
    · exact .inr later

end

/-- Points after which the statements in a statement follow list the statement itself either way. -/
theorem distinct_append_occurrences (points : List Point) (s : Stmt) :
    distinct (points ++ [⟨s⟩] ++ distinct ((occurrences s).map Point.mk)) =
      distinct (points ++ (occurrences s).map Point.mk) := by
  obtain ⟨more, whole⟩ : ∃ more, occurrences s = s :: more := by
    cases s <;> exact ⟨_, rfl⟩
  have again : distinct (points ++ [⟨s⟩] ++ [⟨s⟩]) = distinct (points ++ [⟨s⟩]) :=
    distinct_append_of_subset (by simp)
  rw [distinct_append_distinct, whole, List.map_cons]
  simpa using distinct_append_congr again (more.map Point.mk)

mutual

/-- The points of a statement's graph are the statements in it. -/
theorem points_ofStatement : ∀ s : Stmt,
    (ofStatement s).2.points = distinct ((occurrences s).map Point.mk)
  | .assign _ _ _ => rfl
  | .ifElse line condition thenBody elseBody => by
    have once := (wellFormed_ofStatement (.ifElse line condition thenBody elseBody)).points_nodup
    rw [← distinct_of_nodup once, ofStatement, occurrences, List.map_cons, List.map_append]
    generalize (⟨.ifElse line condition thenBody elseBody⟩ : Point) = p
    -- Each body's graph is merged into a graph that lists the branch already.
    have yes : distinct ((empty.addPoint p).merge
        (ofSequence empty [⟨p, condition, .whenTrue⟩] thenBody).2).points =
          distinct (p :: (occurrencesIn thenBody).map Point.mk) :=
      (distinct_merge [] _ (wellFormed_ofSequence thenBody _ _ wellFormed_empty)).trans
        (distinct_ofSequence thenBody [p] empty _ (by simp))
    refine (distinct_merge [] _ (wellFormed_ofSequence elseBody _ _ wellFormed_empty)).trans ?_
    rw [List.nil_append, distinct_ofSequence elseBody _ empty _ ?_]
    · simpa [empty] using distinct_append_congr yes _
    · intro exit listed
      rw [List.mem_singleton.mp listed]
      exact List.mem_append_left _ (mem_points_merge (.inl (by simp)))
  | .loop line condition body => by
    have once := (wellFormed_ofStatement (.loop line condition body)).points_nodup
    rw [← distinct_of_nodup once, ofStatement, occurrences, List.map_cons]
    generalize (⟨.loop line condition body⟩ : Point) = p
    have head : p ∈ ((empty.addPoint p).merge
        (ofSequence empty [⟨p, condition, .whenTrue⟩] body).2).points := mem_points_merge (.inl (by simp))
    refine (distinct_connect [] ((empty.addPoint p).merge _) ?_ head).trans ?_
    · intro exit listed
      rcases source_mem_ofSequence body _ _ exit listed with first | inside
      · rw [List.mem_singleton.mp first]
        exact head
      · exact mem_points_merge (.inr inside)
    · exact (distinct_merge [] _ (wellFormed_ofSequence body _ _ wellFormed_empty)).trans
        (distinct_ofSequence body [p] empty _ (by simp))
  | .ret _ _ => rfl

/-- After known points, among which are the sources of its exits, the graph of a sequence adds the
statements in the sequence. -/
theorem distinct_ofSequence : ∀ (ss : List Stmt) (known : List Point) (g : Graph) (exits : List Exit),
    (∀ exit ∈ exits, exit.source ∈ known ++ g.points) →
    distinct (known ++ (ofSequence g exits ss).2.points) =
      distinct (known ++ g.points ++ (occurrencesIn ss).map Point.mk)
  | [], known, g, exits, _ => by simp [ofSequence, occurrencesIn]
  | s :: rest, known, g, exits, sources => by
    have kept : ∀ q ∈ known ++ g.points, q ∈ known ++ (g.addPoint ⟨s⟩).points := by
      intro q found
      exact (List.mem_append.mp found).elim (List.mem_append_left _)
        fun own => List.mem_append_right _ (by simp [own])
    have first : distinct (known ++ (((g.addPoint ⟨s⟩).connect exits ⟨s⟩).merge (ofStatement s).2).points) =
        distinct (known ++ g.points ++ (occurrences s).map Point.mk) := by
      calc distinct (known ++ (((g.addPoint ⟨s⟩).connect exits ⟨s⟩).merge (ofStatement s).2).points)
          = distinct (known ++ ((g.addPoint ⟨s⟩).connect exits ⟨s⟩).points ++ (ofStatement s).2.points) :=
            distinct_merge known _ (wellFormed_ofStatement s)
        _ = distinct (known ++ (g.addPoint ⟨s⟩).points ++ (ofStatement s).2.points) :=
            distinct_append_congr (distinct_connect known _ (fun exit listed => kept _ (sources exit listed))
              (by simp)) _
        _ = distinct (known ++ g.points ++ [⟨s⟩] ++ (ofStatement s).2.points) :=
            distinct_append_congr (distinct_addPoint known g ⟨s⟩) _
        _ = distinct (known ++ g.points ++ (occurrences s).map Point.mk) := by
            rw [points_ofStatement s, distinct_append_occurrences]
    rw [ofSequence, distinct_ofSequence rest known _ _ ?_, distinct_append_congr first, occurrencesIn,
      List.map_append, List.append_assoc _ _ (List.map _ (occurrencesIn rest))]
    intro exit listed
    exact List.mem_append_right _ (mem_points_merge (.inr (source_mem_ofStatement s exit listed)))

end

/-- **The points of a function's graph are the statements of its body in source order.** -/
theorem points_build (f : FunctionDef) :
    (build f).points = distinct ((occurrencesIn f.body).map Point.mk) := by
  have once := (wellFormed_build f).points_nodup
  rw [build_eq] at once ⊢
  have listed := distinct_ofSequence f.body [] empty [] (by simp)
  rw [List.nil_append, distinct_of_nodup once] at listed
  exact listed

/-! ## Lines -/

mutual

/-- The first statement on a line, looked for in the tree, is the first one in source order. -/
theorem find?_occurrences (line : Nat) : ∀ s : Stmt,
    (occurrences s).find? (·.line = line) = s.atLine? line
  | .assign n x e => by
    by_cases here : n = line <;> simp [occurrences, atLine?, Stmt.line, here]
  | .ifElse n c s t => by
    rw [occurrences, atLine?, List.find?_cons, List.find?_append, find?_occurrencesIn line s,
      find?_occurrencesIn line t]
    by_cases here : n = line
    · simp [Stmt.line, here]
    · cases atLineIn? line s <;> simp [Stmt.line, here]
  | .loop n c s => by
    rw [occurrences, atLine?, List.find?_cons, find?_occurrencesIn line s]
    by_cases here : n = line <;> simp [Stmt.line, here]
  | .ret n e => by
    by_cases here : n = line <;> simp [occurrences, atLine?, Stmt.line, here]

theorem find?_occurrencesIn (line : Nat) : ∀ ss : List Stmt,
    (occurrencesIn ss).find? (·.line = line) = atLineIn? line ss
  | [] => rfl
  | s :: rest => by
    rw [occurrencesIn, atLineIn?, List.find?_append, find?_occurrences line s,
      find?_occurrencesIn line rest]
    cases s.atLine? line <;> rfl

end

/-- **Graphs list statements in source order.** The points of a function's graph are the statements in its
body, each before the ones in its bodies and the first body of a branch before the second, without later
copies of equal ones. On every line, the point that the graph finds is the statement that the function
finds there, and neither finds one where the other does not. -/
theorem points_are_statements_in_order (f : FunctionDef) :
    (build f).points = distinct ((occurrencesIn f.body).map Point.mk) ∧
      ∀ line, (build f).pointAtLine? line = (f.statementAt? line).map Point.mk := by
  refine ⟨points_build f, fun line => ?_⟩
  rw [pointAtLine?, points_build, find?_distinct, List.find?_map, FunctionDef.statementAt?,
    ← find?_occurrencesIn]
  rfl

end Dataflow.Graph
