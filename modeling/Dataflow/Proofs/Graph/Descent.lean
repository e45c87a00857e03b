import Dataflow.Proofs.Analysis.Names

/-!
# Control descends between loop heads

Every statement of a body is a point of its graph (`mem_points_of_occurrence`). When no statement occurs
twice, the rank of a point is the number of statements in the agenda that begins there. An edge out of a
point that is not a loop leads to a shorter agenda, so it lowers the rank (`rank_lt_of_edge`): every
cycle of the graph goes through a loop head.
-/

set_option autoImplicit false

namespace Dataflow.Graph

open Stmt

/-! ## Points of composed graphs -/

@[simp] theorem mem_points_addPoint {g : Graph} {p q : Point} :
    q ∈ (g.addPoint p).points ↔ q ∈ g.points ∨ q = p := by
  unfold addPoint
  split
  · next found => exact ⟨Or.inl, fun there => there.elim id fun same => same ▸ found⟩
  · rw [List.mem_append, List.mem_singleton]

theorem mem_points_addEdge {g : Graph} {e : Edge} {q : Point} (found : q ∈ g.points) :
    q ∈ (g.addEdge e).points := by
  have kept : q ∈ ((g.addPoint e.source).addPoint e.target).points := by simp [found]
  unfold addEdge
  dsimp only
  split <;> exact kept

theorem mem_points_foldl_addEdge {g : Graph} {q : Point} (edges : List Edge) (found : q ∈ g.points) :
    q ∈ (edges.foldl addEdge g).points := by
  induction edges generalizing g with
  | nil => exact found
  | cons e rest ih => exact ih (mem_points_addEdge found)

theorem mem_points_foldl_addPoint {g : Graph} {points : List Point} {q : Point} :
    q ∈ (points.foldl addPoint g).points ↔ q ∈ g.points ∨ q ∈ points := by
  induction points generalizing g with
  | nil => simp
  | cons p rest ih => rw [List.foldl_cons, ih, mem_points_addPoint, List.mem_cons, or_assoc]

theorem mem_points_merge {g h : Graph} {q : Point} (found : q ∈ g.points ∨ q ∈ h.points) :
    q ∈ (g.merge h).points :=
  mem_points_foldl_addEdge h.edges (mem_points_foldl_addPoint.mpr found)

theorem mem_points_connect {g : Graph} {exits : List Exit} {target q : Point} (found : q ∈ g.points) :
    q ∈ (g.connect exits target).points := by
  rw [connect_eq_foldl]
  exact mem_points_foldl_addEdge _ found

mutual

/-- The statements in a statement are points of its graph. -/
theorem mem_points_ofStatement {t : Stmt} :
    ∀ s : Stmt, t ∈ occurrences s → ⟨t⟩ ∈ (ofStatement s).2.points
  | .assign _ _ _, here => by
    rw [occurrences, List.mem_singleton] at here
    simp [ofStatement, here]
  | .ifElse line condition thenBody elseBody, here => by
    rw [occurrences, List.mem_cons, List.mem_append] at here
    rw [ofStatement]
    rcases here with rfl | inThen | inElse
    · exact mem_points_merge (Or.inl (mem_points_merge (Or.inl (by simp))))
    · exact mem_points_merge (Or.inl (mem_points_merge
        (Or.inr (mem_points_ofSequence thenBody _ _ (Or.inr inThen)))))
    · exact mem_points_merge (Or.inr (mem_points_ofSequence elseBody _ _ (Or.inr inElse)))
  | .loop line condition body, here => by
    rw [occurrences, List.mem_cons] at here
    rw [ofStatement]
    refine mem_points_connect (mem_points_merge ?_)
    rcases here with rfl | inBody
    · exact Or.inl (by simp)
    · exact Or.inr (mem_points_ofSequence body _ _ (Or.inr inBody))
  | .ret _ _, here => by
    rw [occurrences, List.mem_singleton] at here
    simp [ofStatement, here]

/-- The graph of a sequence keeps the points it started with and has the statements in the sequence as
points. -/
theorem mem_points_ofSequence {t : Stmt} : ∀ (ss : List Stmt) (g : Graph) (exits : List Exit),
    ⟨t⟩ ∈ g.points ∨ t ∈ occurrencesIn ss → ⟨t⟩ ∈ (ofSequence g exits ss).2.points
  | [], g, exits, here => by
    rw [ofSequence]
    exact here.resolve_right (by simp [occurrencesIn])
  | s :: rest, g, exits, here => by
    rw [ofSequence]
    refine mem_points_ofSequence rest _ _ ?_
    rw [occurrencesIn, List.mem_append] at here
    rcases here with before | inFirst | inRest
    · exact Or.inl (mem_points_merge (Or.inl (mem_points_connect (by simp [before]))))
    · exact Or.inl (mem_points_merge (Or.inr (mem_points_ofStatement s inFirst)))
    · exact Or.inr inRest

end

variable {f : FunctionDef}

/-- **The statements of a body are points of its graph.** -/
theorem mem_points_of_occurrence {p : Point} (occurs : p.statement ∈ occurrencesIn f.body) :
    p ∈ (build f).points := by
  rw [build_eq]
  exact mem_points_ofSequence f.body empty [] (Or.inr occurs)

/-! ## Ranks -/

theorem occurrencesIn_append (ss ts : List Stmt) :
    occurrencesIn (ss ++ ts) = occurrencesIn ss ++ occurrencesIn ts := by
  induction ss with
  | nil => rfl
  | cons s rest ih => rw [List.cons_append, occurrencesIn, occurrencesIn, ih, List.append_assoc]

/-- From a statement that is not a loop, control goes on to fewer statements. -/
theorem length_occurrencesIn_of_way {s : Stmt} {rest : List Stmt} {way : Label × List Stmt}
    (plain : s.isLoop = false) (found : way ∈ ways (s :: rest)) :
    (occurrencesIn way.2).length < (occurrencesIn (s :: rest)).length := by
  cases s with
  | assign line target value =>
    rw [ways, List.mem_singleton] at found
    subst found
    simp [occurrencesIn, occurrences]
  | ifElse line condition thenBody elseBody =>
    simp only [ways, List.mem_cons, List.not_mem_nil, or_false] at found
    rcases found with rfl | rfl
    · simp only [occurrencesIn, occurrencesIn_append, occurrences, List.length_append,
        List.length_cons]
      omega
    · simp only [occurrencesIn, occurrencesIn_append, occurrences, List.length_append,
        List.length_cons]
      omega
  | loop line condition body => cases plain
  | ret line value => simp [ways] at found

/-- The number of statements in the agenda that begins at a point. -/
def rank (f : FunctionDef) (p : Point) : Nat :=
  match (agendas [] f.body).find? fun todo => todo.head? = some p.statement with
  | some todo => (occurrencesIn todo).length
  | none => 0

/-- When no statement occurs twice, any agenda that begins at a point gives its rank. -/
theorem rank_eq {s : Stmt} {rest : List Stmt} (distinct : (occurrencesIn f.body).Nodup)
    (agenda : s :: rest ∈ agendas [] f.body) : rank f ⟨s⟩ = (occurrencesIn (s :: rest)).length := by
  unfold rank
  split
  · next todo found =>
    have listed := List.mem_of_find?_eq_some found
    have begins := List.find?_some found
    obtain ⟨more, rfl⟩ := List.head?_eq_some_iff.mp (of_decide_eq_true begins)
    rw [agenda_unique distinct agenda listed]
  · next missing =>
    have impossible := List.find?_eq_none.mp missing _ agenda
    simp at impossible

/-- **An edge out of a point that is not a loop lowers the rank.** -/
theorem rank_lt_of_edge (distinct : (occurrencesIn f.body).Nodup) {e : Edge}
    (found : e ∈ (build f).edges) (plain : e.source.statement.isLoop = false) :
    rank f e.target < rank f e.source := by
  obtain ⟨todo, agenda, s, head, way, onward, t, next, rfl⟩ := mem_edges_build.mp found
  obtain ⟨rest, rfl⟩ := List.head?_eq_some_iff.mp head
  obtain ⟨more, leads⟩ := List.head?_eq_some_iff.mp next
  have shorter := length_occurrencesIn_of_way plain onward
  -- The way leads to an agenda again, since it does not leave the body.
  have goes : way.2 ∈ agendas [] f.body ∨ way.2 = [] :=
    mem_agendas_of_way [] f.body agenda onward
  rw [leads] at goes shorter
  rw [rank_eq distinct agenda, rank_eq distinct (goes.resolve_right (by simp))]
  exact shorter

/-- A loop that an edge leads out of is a loop head. -/
theorem isLoop_of_edge {e : Edge} (found : e ∈ (build f).edges)
    (plain : (build f).isLoopHead e.source = false) : e.source.statement.isLoop = false := by
  obtain ⟨todo, agenda, s, head, way, onward, t, next, rfl⟩ := mem_edges_build.mp found
  obtain ⟨rest, rfl⟩ := List.head?_eq_some_iff.mp head
  have listed : (⟨s⟩ : Point) ∈ (build f).points :=
    mem_points_of_occurrence (mem_occurrencesIn_of_agenda agenda)
  simpa [isLoopHead, listed] using plain

end Dataflow.Graph
