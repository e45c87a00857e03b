import Dataflow.Proofs.Analysis.Reached
import Dataflow.Proofs.Graph.History
import Dataflow.Report
import Dataflow.Zero.Analysis

/-!
# A report accounts for every point

A report lists the points that a result stores and, apart from these, the lines of the points of the
graph that it does not store. Both lists come from different places: the first from the table of outputs,
the second from the graph. They fit together because a run stores only points of the graph, each of them
once, so each point of the graph is counted on exactly one list (`Report.AccountsFor`).
-/

set_option autoImplicit false

namespace Dataflow

variable {α : Type}

namespace Result

/-- The reached points by line. -/
def reachedByLine (result : Result α) : List Point := result.environments.map (·.1)

/-- The points of a graph that were not reached, by line. -/
def unreachedByLine (g : Graph) (result : Result α) : List Point :=
  (g.points.filter fun p => !result.isReached p).mergeSort fun p q => decide (p.line ≤ q.line)

/-- The reached points by line are the keys of the outputs. -/
theorem reachedByLine_perm (result : Result α) : result.reachedByLine.Perm result.outputs.keys :=
  (List.mergeSort_perm _ _).map _

/-- Each reached point comes with its output. -/
theorem get?_of_mem_environments {result : Result α} (once : result.outputs.keys.Nodup)
    {reached : Point × Env α} (listed : reached ∈ result.environments) :
    result.outputs.get? reached.1 = some reached.2 :=
  Table.get?_eq_some_of_mem once ((List.mergeSort_perm _ _).subset listed)

end Result

namespace Report

open Result

/-- What a report shows of a reached point: its line, its header and its output as text. -/
def Shows (text : α → String) (result : Result α) (p : Point) (shown : ReportedPoint) : Prop :=
  ∃ env, result.outputs.get? p = some env ∧
    shown = ⟨p.line, p.statement.header, env.entries.map fun binding => (binding.1, text binding.2)⟩

/-- A report accounts for the points of a graph: they are split into reached ones, which it shows in the
order of their lines, and others, of which it lists the lines in order. -/
structure AccountsFor (report : Report) (text : α → String) (g : Graph) (result : Result α)
    (reached unreached : List Point) : Prop where
  /-- Each point of the graph is on one of the two lists. -/
  all : (reached ++ unreached).Perm g.points
  /-- No point is on both lists, or twice on one. -/
  once : (reached ++ unreached).Nodup
  shown : List.Forall₂ (Shows text result) reached report.points
  lines : report.unreached = unreached.map (·.line)
  /-- Nothing is stored at the points that are not shown. -/
  absent : ∀ p ∈ unreached, result.inputs.get? p = none ∧ result.outputs.get? p = none
  points_by_line : report.points.Pairwise fun a b => a.line ≤ b.line
  unreached_by_line : report.unreached.Pairwise (· ≤ ·)

/-- The lengths of the two lists of a report add up to the number of points. -/
theorem AccountsFor.length_add {report : Report} {text : α → String} {g : Graph} {result : Result α}
    {reached unreached : List Point} (accounts : report.AccountsFor text g result reached unreached) :
    report.points.length + report.unreached.length = g.points.length := by
  rw [← accounts.shown.length_eq, accounts.lines, List.length_map, ← List.length_append]
  exact accounts.all.length_eq

/-- The reached points of a graph and the others are all its points. -/
theorem append_perm_points {g : Graph} {result : Result α} (fine : g.WellFormed)
    (listed : ∀ p ∈ result.outputs.keys, p ∈ g.points) (once : result.outputs.keys.Nodup) :
    (result.reachedByLine ++ result.unreachedByLine g).Perm g.points := by
  -- The keys of the outputs are the points of the graph that are reached, in another order.
  have keys : result.outputs.keys.Perm (g.points.filter fun p => result.isReached p) := by
    apply (List.perm_ext_iff_of_nodup once (fine.points_nodup.filter _)).mpr
    intro p
    rw [List.mem_filter]
    constructor
    · exact fun stored => ⟨listed p stored, Table.mem_keys_iff.mp stored⟩
    · exact fun reached => Table.mem_keys_iff.mpr reached.2
  have sorted : (result.reachedByLine ++ result.unreachedByLine g).Perm
      ((g.points.filter fun p => result.isReached p) ++
        g.points.filter fun p => !result.isReached p) :=
    ((reachedByLine_perm result).trans keys).append (List.mergeSort_perm _ _)
  exact sorted.trans (List.filter_append_perm _ _)

/-- Each reached point is shown by its entry in the report. -/
theorem shown_ofResult (called : String) (text : α → String) (f : FunctionDef) (g : Graph)
    {result : Result α} (once : result.outputs.keys.Nodup) :
    List.Forall₂ (Shows text result) result.reachedByLine
      (ofResult called text f g result).points := by
  rw [reachedByLine, List.forall₂_map_left_iff, ofResult, List.forall₂_map_right_iff,
    List.forall₂_same]
  intro reached listed
  exact ⟨reached.2, get?_of_mem_environments once listed, rfl⟩

/-- The lines of the points that were not reached, sorted as lines or as points. -/
theorem unreachedLines_eq (g : Graph) (result : Result α) :
    unreachedLines g result = (result.unreachedByLine g).map (·.line) := by
  apply Eq.symm
  apply List.map_mergeSort
  intro p _ q _
  rfl

/-- **A report accounts for the points of the graph**, given what a result stores. -/
theorem accountsFor_ofResult (called : String) (text : α → String) (f : FunctionDef) {g : Graph}
    {result : Result α} (fine : g.WellFormed) (explored : Analysis.ResultExplored g result) :
    (ofResult called text f g result).AccountsFor text g result result.reachedByLine
      (result.unreachedByLine g) := by
  have listed : ∀ p ∈ result.outputs.keys, p ∈ g.points := by
    intro p stored
    obtain ⟨entry, isEntry, path⟩ := explored.reached p stored
    exact fine.mem_points_of_connected (fine.entry_listed entry isEntry) path
  have all := append_perm_points fine listed explored.once
  constructor
  · exact all
  · exact all.symm.nodup fine.points_nodup
  · exact shown_ofResult called text f g explored.once
  · exact unreachedLines_eq g result
  · intro p missed
    have unreached : result.isReached p = false := by
      simpa using (List.mem_filter.mp ((List.mergeSort_perm _ _).subset missed)).2
    have output : result.outputs.get? p = none := by
      simpa [isReached, Table.contains] using unreached
    have input := explored.together p
    rw [output] at input
    exact ⟨by simpa using input, output⟩
  · exact List.pairwise_map.mpr
      (pairwise_mergeSort_key (fun reached : Point × Env α => reached.1.line) _)
  · exact pairwise_mergeSort_key id _

end Report

open Analysis Report in
/-- **Reached points are reachable, and a report counts every point of the graph once.** Whatever the
analysis: a result has inputs exactly where it has outputs, and only at points that the search from the
entry finds, namely those that a path of edges leads to. The report shows these points by line and lists
the lines of all other points in order, so both lists together are as long as the list of points. The
graphs are the well-formed ones, and whatever is done with graphs leads to such a graph
(`History.wellFormed`). -/
theorem reports_partition_graph [DecidableEq α] (A : Analysis α) (config : Config) (f : FunctionDef)
    (g : Graph) (fine : g.WellFormed) (result : Result α) (ran : A.runOn config f g = .ok result)
    (called : String) (text : α → String) :
    (∀ p, (result.inputs.get? p).isSome = true ↔ (result.outputs.get? p).isSome = true) ∧
    (∀ p, (result.outputs.get? p).isSome = true →
      ∃ entry, g.entry = some entry ∧ p ∈ g.reachableFrom entry) ∧
    (∀ start, (g.reachableFrom start).Nodup ∧
      ∀ p, p ∈ g.reachableFrom start ↔ start ∈ g.points ∧ g.Connected start p) ∧
    (∃ reached unreached,
      (ofResult called text f g result).AccountsFor text g result reached unreached) ∧
    (ofResult called text f g result).points.length +
      (ofResult called text f g result).unreached.length = g.points.length := by
  have explored := resultExplored_of_runOn ran
  have accounts := accountsFor_ofResult called text f fine explored
  refine ⟨explored.together, ?_, ?_, ⟨_, _, accounts⟩, accounts.length_add⟩
  · intro p stored
    obtain ⟨entry, isEntry, path⟩ := explored.reached p (Table.mem_keys_iff.mpr stored)
    exact ⟨entry, isEntry, (Graph.mem_reachableFrom_iff fine).mpr ⟨fine.entry_listed entry isEntry, path⟩⟩
  · intro start
    exact ⟨Graph.nodup_reachableFrom fine start, fun p => Graph.mem_reachableFrom_iff fine⟩

/-- A branch that is never taken, and a statement after the end of the function. -/
def leavesEarly : FunctionDef :=
  .make 1 "leavesEarly" [] [.assign 2 "x" (.int 1),
    .ifElse 3 (.equality (.var "x") .eq (.int 0)) [.assign 4 "y" (.int 2)] [],
    .ret 6 (.var "x"), .assign 7 "z" (.int 3)] none

example : (Zero.analysis.runOn Config.standard leavesEarly (Graph.build leavesEarly)).toOption.map
    (fun result => result.outputs.keys.map (·.line)) = some [2, 3, 6] := by
  decide +kernel

/-- The report of a function counts its five points, though two of them are not reached. -/
theorem leavesEarly_counted : ∃ result,
    Zero.analysis.runOn Config.standard leavesEarly (Graph.build leavesEarly) = .ok result ∧
    (Report.ofResult "zero" Zero.render leavesEarly (Graph.build leavesEarly) result).points.length +
      (Report.ofResult "zero" Zero.render leavesEarly (Graph.build leavesEarly) result).unreached.length
        = 5 := by
  obtain ⟨result, ran⟩ : ∃ result, Zero.analysis.runOn Config.standard leavesEarly
      (Graph.build leavesEarly) = .ok result :=
    Analysis.exists_result_of_isOk (by decide +kernel)
  have counted := reports_partition_graph Zero.analysis Config.standard leavesEarly
    (Graph.build leavesEarly) (Graph.wellFormed_build leavesEarly) result ran "zero" Zero.render
  exact ⟨result, ran, counted.2.2.2.2.trans (by decide +kernel)⟩

end Dataflow
