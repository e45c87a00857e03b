import Dataflow.Proofs.Print.RoundTrip
import Mathlib.Data.List.Forall2

/-!
# Graphs of renumbered functions

Two bodies that differ only in line numbers have the same statements place by place (`SamePlace`). When
no statement occurs twice in either body, this pairs the points of the two one to one
(`biUnique_samePlace`).

Points enter a graph through equality alone: a point or an edge is added unless it is there. So a pairing
of points that is one to one on both sides is kept by every operation, and the two graphs have paired
points and edges in the same order (`Paired.build`).
-/

set_option autoImplicit false

namespace Dataflow

open Relator

/-! ## Statements at the same place -/

namespace Stmt

mutual

/-- Taking the line numbers off the statements in a statement. -/
theorem occurrences_withoutLines : ∀ s : Stmt, occurrences s.withoutLines = (occurrences s).map withoutLines
  | assign _ _ _ => rfl
  | ifElse _ _ thenBody elseBody => by
    simp [withoutLines, occurrences, occurrencesIn_allWithoutLines thenBody,
      occurrencesIn_allWithoutLines elseBody]
  | loop _ _ body => by
    simp [withoutLines, occurrences, occurrencesIn_allWithoutLines body]
  | ret _ _ => rfl

/-- Taking the line numbers off the statements in a list of statements. -/
theorem occurrencesIn_allWithoutLines : ∀ body : List Stmt,
    occurrencesIn (allWithoutLines body) = (occurrencesIn body).map withoutLines
  | [] => rfl
  | s :: rest => by
    simp [allWithoutLines, occurrencesIn, occurrences_withoutLines s, occurrencesIn_allWithoutLines rest]

end

/-- Bodies that differ only in line numbers have the same statements, in order, up to line numbers. -/
theorem map_withoutLines_congr {body body' : List Stmt} (same : allWithoutLines body = allWithoutLines body') :
    (occurrencesIn body).map withoutLines = (occurrencesIn body').map withoutLines := by
  rw [← occurrencesIn_allWithoutLines, same, occurrencesIn_allWithoutLines]

theorem length_occurrencesIn_congr {body body' : List Stmt}
    (same : allWithoutLines body = allWithoutLines body') :
    (occurrencesIn body).length = (occurrencesIn body').length := by
  simpa using congrArg List.length (map_withoutLines_congr same)

theorem length_occurrences_congr {s s' : Stmt} (same : s.withoutLines = s'.withoutLines) :
    (occurrences s).length = (occurrences s').length := by
  have all := congrArg occurrences same
  rw [occurrences_withoutLines, occurrences_withoutLines] at all
  simpa using congrArg List.length all

theorem isLoop_withoutLines (s : Stmt) : s.withoutLines.isLoop = s.isLoop := by
  cases s <;> rfl

/-- The statements in a sequence begin with its first one. -/
theorem occurrencesIn_cons (s : Stmt) (rest : List Stmt) :
    ∃ more, occurrencesIn (s :: rest) = s :: more := by
  cases s <;> exact ⟨_, rfl⟩

end Stmt

open Stmt

/-- Points of two bodies whose statements stand at the same place of the source. -/
def SamePlace (body body' : List Stmt) (p p' : Point) : Prop :=
  ∃ i : Nat, (occurrencesIn body)[i]? = some p.statement ∧ (occurrencesIn body')[i]? = some p'.statement

section SamePlace

variable {body body' : List Stmt}

/-- When no statement occurs twice, places pair the points of the two bodies one to one. -/
theorem biUnique_samePlace (distinct : (occurrencesIn body).Nodup) (distinct' : (occurrencesIn body').Nodup) :
    BiUnique (SamePlace body body') := by
  constructor
  · rintro p q r ⟨i, left, right⟩ ⟨j, left', right'⟩
    obtain ⟨inside, -⟩ := List.getElem?_eq_some_iff.mp right
    obtain rfl : i = j := (List.getElem?_inj inside distinct').mp (right.trans right'.symm)
    exact congrArg Point.mk (Option.some.inj (left.symm.trans left'))
  · rintro p q r ⟨i, left, right⟩ ⟨j, left', right'⟩
    obtain ⟨inside, -⟩ := List.getElem?_eq_some_iff.mp left
    obtain rfl : i = j := (List.getElem?_inj inside distinct).mp (left.trans left'.symm)
    exact congrArg Point.mk (Option.some.inj (right.symm.trans right'))

/-- Statements at the same place are equal up to line numbers. -/
theorem SamePlace.withoutLines_eq (same : allWithoutLines body = allWithoutLines body') {p p' : Point}
    (place : SamePlace body body' p p') : p.statement.withoutLines = p'.statement.withoutLines := by
  obtain ⟨i, left, right⟩ := place
  have there := congrArg (fun statements => statements[i]?) (map_withoutLines_congr same)
  simp only [List.getElem?_map, left, right, Option.map_some, Option.some.injEq] at there
  exact there

/-- The statements of two bodies that differ only in line numbers are paired in order. -/
theorem forall₂_samePlace (same : allWithoutLines body = allWithoutLines body') :
    List.Forall₂ (fun s s' => SamePlace body body' ⟨s⟩ ⟨s'⟩) (occurrencesIn body) (occurrencesIn body') := by
  rw [List.forall₂_iff_get]
  refine ⟨length_occurrencesIn_congr same, ?_⟩
  intro i inside inside'
  exact ⟨i, by simp [inside], by simp [inside']⟩

end SamePlace

/-! ## Paired graphs -/

/-- Edges between paired points under one label. -/
structure Edge.Paired (R : Point → Point → Prop) (e e' : Edge) : Prop where
  source : R e.source e'.source
  target : R e.target e'.target
  label : e.label = e'.label

/-- Exits of paired points under one label. -/
structure Exit.Paired (R : Point → Point → Prop) (exit exit' : Exit) : Prop where
  source : R exit.source exit'.source
  label : exit.label = exit'.label

namespace Graph

/-- Graphs with paired points and edges in the same order, and paired entries. -/
structure Paired (R : Point → Point → Prop) (g g' : Graph) : Prop where
  points : List.Forall₂ R g.points g'.points
  edges : List.Forall₂ (Edge.Paired R) g.edges g'.edges
  entry : Option.Rel R g.entry g'.entry

variable {R : Point → Point → Prop} {g g' h h' : Graph} {p p' : Point}

/-- A pairing of points that is one to one is one to one on edges. -/
theorem biUnique_edgePaired (unique : BiUnique R) : BiUnique (Edge.Paired R) := by
  constructor
  · rintro ⟨s, t, l⟩ ⟨s', t', l'⟩ e ⟨source, target, label⟩ ⟨source', target', label'⟩
    obtain rfl := unique.1 source source'
    obtain rfl := unique.1 target target'
    obtain rfl : l = l' := label.trans label'.symm
    rfl
  · rintro e ⟨s, t, l⟩ ⟨s', t', l'⟩ ⟨source, target, label⟩ ⟨source', target', label'⟩
    obtain rfl := unique.2 source source'
    obtain rfl := unique.2 target target'
    obtain rfl : l = l' := label.symm.trans label'
    rfl

/-- One more paired entry at the end. -/
theorem forall₂_concat {β : Type} {S : β → β → Prop} {bs bs' : List β} {b b' : β}
    (before : List.Forall₂ S bs bs') (last : S b b') : List.Forall₂ S (bs ++ [b]) (bs' ++ [b']) :=
  List.rel_append before (.cons last .nil)

theorem paired_empty : Paired R empty empty := ⟨.nil, .nil, .none⟩

theorem Paired.addPoint (unique : BiUnique R) (paired : Paired R g g') (point : R p p') :
    Paired R (g.addPoint p) (g'.addPoint p') := by
  have listed : p ∈ g.points ↔ p' ∈ g'.points := List.rel_mem unique point paired.points
  unfold Graph.addPoint
  by_cases found : p ∈ g.points
  · rw [if_pos found, if_pos (listed.mp found)]
    exact paired
  · rw [if_neg found, if_neg (mt listed.mpr found)]
    exact ⟨forall₂_concat paired.points point, paired.edges, paired.entry⟩

theorem Paired.addEdge (unique : BiUnique R) (paired : Paired R g g') {e e' : Edge}
    (edge : Edge.Paired R e e') : Paired R (g.addEdge e) (g'.addEdge e') := by
  have both := (paired.addPoint unique edge.source).addPoint unique edge.target
  have listed := List.rel_mem (biUnique_edgePaired unique) edge both.edges
  unfold Graph.addEdge
  dsimp only
  by_cases found : e ∈ ((g.addPoint e.source).addPoint e.target).edges
  · rw [if_pos found, if_pos (listed.mp found)]
    exact both
  · rw [if_neg found, if_neg (mt listed.mpr found)]
    exact ⟨both.points, forall₂_concat both.edges edge, both.entry⟩

theorem Paired.foldl_addPoint (unique : BiUnique R) {points points' : List Point}
    (all : List.Forall₂ R points points') (paired : Paired R g g') :
    Paired R (points.foldl Graph.addPoint g) (points'.foldl Graph.addPoint g') := by
  induction all generalizing g g' with
  | nil => exact paired
  | cons point _ ih => exact ih (paired.addPoint unique point)

theorem Paired.foldl_addEdge (unique : BiUnique R) {edges edges' : List Edge}
    (all : List.Forall₂ (Edge.Paired R) edges edges') (paired : Paired R g g') :
    Paired R (edges.foldl Graph.addEdge g) (edges'.foldl Graph.addEdge g') := by
  induction all generalizing g g' with
  | nil => exact paired
  | cons edge _ ih => exact ih (paired.addEdge unique edge)

theorem Paired.connect (unique : BiUnique R) {exits exits' : List Exit}
    (all : List.Forall₂ (Exit.Paired R) exits exits') (paired : Paired R g g') (point : R p p') :
    Paired R (g.connect exits p) (g'.connect exits' p') := by
  induction all generalizing g g' with
  | nil => exact paired
  | cons exit _ ih => exact ih (paired.addEdge unique ⟨exit.source, point, exit.label⟩)

theorem Paired.merge (unique : BiUnique R) (paired : Paired R g g') (other : Paired R h h') :
    Paired R (g.merge h) (g'.merge h') := by
  have points := Paired.foldl_addPoint unique other.points paired
  have edges := Paired.foldl_addEdge unique other.edges points
  have entry := edges.entry
  refine ⟨edges.points, edges.edges, ?_⟩
  simp only [Graph.merge]
  generalize (h.edges.foldl Graph.addEdge (h.points.foldl Graph.addPoint g)).entry = first at entry ⊢
  generalize (h'.edges.foldl Graph.addEdge (h'.points.foldl Graph.addPoint g')).entry = first' at entry ⊢
  cases entry with
  | none => exact other.entry
  | some point => exact .some point

/-! ## Graphs of statements -/

/-- Pairs of two lists that are joined from parts of the same lengths. -/
theorem forall₂_of_append {β : Type} {S : β → β → Prop} {as bs as' bs' : List β}
    (lengths : as.length = as'.length) (all : List.Forall₂ S (as ++ bs) (as' ++ bs')) :
    List.Forall₂ S as as' ∧ List.Forall₂ S bs bs' := by
  constructor
  · have first := List.forall₂_take as.length all
    rwa [List.take_left, lengths, List.take_left] at first
  · have second := List.forall₂_drop as.length all
    rwa [List.drop_left, lengths, List.drop_left] at second

/-- When the statements of two sequences are paired in order, so are the first ones. -/
theorem paired_first {s s' : Stmt} {rest rest' : List Stmt}
    (all : List.Forall₂ (fun t t' => R ⟨t⟩ ⟨t'⟩) (occurrencesIn (s :: rest)) (occurrencesIn (s' :: rest'))) :
    R ⟨s⟩ ⟨s'⟩ := by
  obtain ⟨more, first⟩ := occurrencesIn_cons s rest
  obtain ⟨more', first'⟩ := occurrencesIn_cons s' rest'
  rw [first, first'] at all
  exact (List.forall₂_cons.mp all).1

mutual

/-- Statements that differ only in line numbers have paired exits and graphs, when the statements in them
are paired in order. -/
theorem Paired.ofStatement (unique : BiUnique R) : ∀ s s' : Stmt, s.withoutLines = s'.withoutLines →
    List.Forall₂ (fun t t' => R ⟨t⟩ ⟨t'⟩) (occurrences s) (occurrences s') →
    List.Forall₂ (Exit.Paired R) (ofStatement s).1 (ofStatement s').1 ∧
      Paired R (ofStatement s).2 (ofStatement s').2
  | .assign _ _ _, .assign _ _ _, _, .cons point _ =>
    ⟨.cons ⟨point, rfl⟩ .nil, paired_empty.addPoint unique point⟩
  | .ifElse _ condition thenBody elseBody, .ifElse _ condition' thenBody' elseBody', same,
      .cons point inside => by
    simp only [withoutLines, ifElse.injEq, true_and] at same
    obtain ⟨rfl, sameThen, sameElse⟩ := same
    obtain ⟨inThen, inElse⟩ := forall₂_of_append (length_occurrencesIn_congr sameThen) inside
    have yes := Paired.ofSequence unique thenBody thenBody' sameThen inThen paired_empty
      (.cons (a := ⟨_, condition, .whenTrue⟩) (b := ⟨_, condition, .whenTrue⟩) ⟨point, rfl⟩ .nil)
    have no := Paired.ofSequence unique elseBody elseBody' sameElse inElse paired_empty
      (.cons (a := ⟨_, condition.negate, .whenFalse⟩) (b := ⟨_, condition.negate, .whenFalse⟩)
        ⟨point, rfl⟩ .nil)
    exact ⟨List.rel_append yes.1 no.1,
      ((paired_empty.addPoint unique point).merge unique yes.2).merge unique no.2⟩
  | .loop _ condition body, .loop _ condition' body', same, .cons point inside => by
    simp only [withoutLines, loop.injEq, true_and] at same
    obtain ⟨rfl, sameBody⟩ := same
    have inner := Paired.ofSequence unique body body' sameBody inside paired_empty
      (.cons (a := ⟨_, condition, .whenTrue⟩) (b := ⟨_, condition, .whenTrue⟩) ⟨point, rfl⟩ .nil)
    exact ⟨.cons ⟨point, rfl⟩ .nil,
      ((paired_empty.addPoint unique point).merge unique inner.2).connect unique inner.1 point⟩
  | .ret _ _, .ret _ _, _, .cons point _ => ⟨.nil, paired_empty.addPoint unique point⟩

/-- Sequences that differ only in line numbers keep graphs and exits paired. -/
theorem Paired.ofSequence (unique : BiUnique R) : ∀ (ss ss' : List Stmt) {g g' : Graph}
    {exits exits' : List Exit}, allWithoutLines ss = allWithoutLines ss' →
    List.Forall₂ (fun t t' => R ⟨t⟩ ⟨t'⟩) (occurrencesIn ss) (occurrencesIn ss') → Paired R g g' →
    List.Forall₂ (Exit.Paired R) exits exits' →
    List.Forall₂ (Exit.Paired R) (ofSequence g exits ss).1 (ofSequence g' exits' ss').1 ∧
      Paired R (ofSequence g exits ss).2 (ofSequence g' exits' ss').2
  | [], [], _, _, _, _, _, _, paired, exits => ⟨exits, paired⟩
  | s :: rest, s' :: rest', g, g', _, _, same, inside, paired, exits => by
    simp only [allWithoutLines, List.cons.injEq] at same
    obtain ⟨inFirst, inRest⟩ := forall₂_of_append (length_occurrences_congr same.1) inside
    have point := paired_first inside
    have own := Paired.ofStatement unique s s' same.1 inFirst
    exact Paired.ofSequence unique rest rest' same.2 inRest
      (((paired.addPoint unique point).connect unique exits point).merge unique own.2) own.1

end

/-- The first statements of two sequences that differ only in line numbers are paired. -/
theorem paired_head? : ∀ ss ss' : List Stmt, allWithoutLines ss = allWithoutLines ss' →
    List.Forall₂ (fun t t' => R ⟨t⟩ ⟨t'⟩) (occurrencesIn ss) (occurrencesIn ss') →
    Option.Rel R (ss.head?.map Point.mk) (ss'.head?.map Point.mk)
  | [], [], _, _ => .none
  | _ :: _, _ :: _, _, all => .some (paired_first all)

/-- **Functions whose bodies differ only in line numbers have paired graphs.** -/
theorem Paired.build {f f' : FunctionDef} (unique : BiUnique (SamePlace f.body f'.body))
    (same : allWithoutLines f.body = allWithoutLines f'.body) :
    Paired (SamePlace f.body f'.body) (Graph.build f) (Graph.build f') := by
  have all := forall₂_samePlace same
  obtain ⟨-, points, edges, -⟩ := Paired.ofSequence unique f.body f'.body same all paired_empty .nil
  rw [build_eq, build_eq]
  exact ⟨points, edges, paired_head? f.body f'.body same all⟩

/-! ## Queries of paired graphs -/

/-- The edges into paired points are paired. -/
theorem Paired.incoming (unique : BiUnique R) (paired : Paired R g g') (point : R p p') :
    List.Forall₂ (Edge.Paired R) (g.incoming p) (g'.incoming p') := by
  refine List.rel_filter ?_ paired.edges
  intro e e' edge
  simp only [decide_eq_true_eq]
  exact rel_eq unique edge.target point

/-- The edges out of paired points are paired. -/
theorem Paired.outgoing (unique : BiUnique R) (paired : Paired R g g') (point : R p p') :
    List.Forall₂ (Edge.Paired R) (g.outgoing p) (g'.outgoing p') := by
  refine List.rel_filter ?_ paired.edges
  intro e e' edge
  simp only [decide_eq_true_eq]
  exact rel_eq unique edge.source point

theorem forall₂_distinct (unique : BiUnique R) {points points' : List Point}
    (all : List.Forall₂ R points points') : List.Forall₂ R (distinct points) (distinct points') := by
  induction all with
  | nil => exact .nil
  | cons point _ ih =>
    refine .cons point (List.rel_filter ?_ ih)
    intro q q' other
    simp only [decide_eq_true_eq]
    exact not_congr (rel_eq unique other point)

/-- The successors of paired points are paired. -/
theorem Paired.successors (unique : BiUnique R) (paired : Paired R g g') (point : R p p') :
    List.Forall₂ R (g.successors p) (g'.successors p') := by
  apply forall₂_distinct unique
  apply List.rel_map (R := Edge.Paired R)
  · intro e e' edge
    exact edge.target
  · exact paired.outgoing unique point

/-- Paired points are loop heads of both graphs or of neither. -/
theorem Paired.isLoopHead (unique : BiUnique R) (paired : Paired R g g') (point : R p p')
    (same : p.statement.withoutLines = p'.statement.withoutLines) :
    g.isLoopHead p = g'.isLoopHead p' := by
  have listed : p ∈ g.points ↔ p' ∈ g'.points := List.rel_mem unique point paired.points
  have loops : p.statement.isLoop = p'.statement.isLoop := by
    rw [← isLoop_withoutLines, same, isLoop_withoutLines]
  unfold Graph.isLoopHead
  rw [loops, decide_eq_decide.mpr listed]

end Graph

end Dataflow
