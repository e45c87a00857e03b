import Dataflow.Proofs.Analysis.Run
import Dataflow.Proofs.Env.Lookup
import Dataflow.Proofs.Graph.Agenda

/-!
# What a run keeps

A property of environments that holds of the entry environment and is kept by edges, joins, widening
and transfers holds of everything a run stores (`Kept.stored`). The first such property is the set of
bound names: when the rules of an analysis speak only of names in the statement or condition at hand
(`Scoped`), every stored environment of a function with computed variables binds exactly these
(`Scoped.kept`). Joins rely on it, since they keep a value that only one side has.
-/

set_option autoImplicit false

namespace Dataflow

/-! ## The names of statements and conditions -/

/-- Negation reads the same variables. -/
theorem Expr.reads_negate : ∀ e : Expr, e.negate.reads = e.reads
  | .var _ | .int _ | .arith _ _ _ | .bool _ | .not _ | .compare _ _ _ | .equality _ _ _
  | .call _ _ => by simp [Expr.negate, Expr.reads]
  | .logic l _ r => by simp [Expr.negate, Expr.reads, reads_negate l, reads_negate r]

namespace Stmt

mutual

/-- A statement mentions the names of the statements in it. -/
theorem mem_mentions_of_occurrence {name : String} {s : Stmt} (mentioned : name ∈ s.mentions) :
    ∀ t : Stmt, s ∈ occurrences t → name ∈ t.mentions
  | assign _ _ _, here => by
    rw [occurrences, List.mem_singleton] at here
    exact here ▸ mentioned
  | ifElse _ _ thenBody elseBody, here => by
    rw [occurrences, List.mem_cons, List.mem_append] at here
    rcases here with rfl | inThen | inElse
    · exact mentioned
    · simp [mentions, mem_mentionsAll_of_occurrence mentioned thenBody inThen]
    · simp [mentions, mem_mentionsAll_of_occurrence mentioned elseBody inElse]
  | loop _ _ body, here => by
    rw [occurrences, List.mem_cons] at here
    rcases here with rfl | inBody
    · exact mentioned
    · simp [mentions, mem_mentionsAll_of_occurrence mentioned body inBody]
  | ret _ _, here => by
    rw [occurrences, List.mem_singleton] at here
    exact here ▸ mentioned

/-- A sequence mentions the names of the statements in it. -/
theorem mem_mentionsAll_of_occurrence {name : String} {s : Stmt} (mentioned : name ∈ s.mentions) :
    ∀ ss : List Stmt, s ∈ occurrencesIn ss → name ∈ mentionsAll ss
  | [], here => by simp [occurrencesIn] at here
  | t :: rest, here => by
    rw [occurrencesIn, List.mem_append] at here
    rw [mentionsAll, List.mem_append]
    exact here.imp (mem_mentions_of_occurrence mentioned t)
      (mem_mentionsAll_of_occurrence mentioned rest)

end

/-- The condition of a way on from an agenda reads names of its first statement. -/
theorem mem_mentions_of_way {s : Stmt} {rest : List Stmt} {way : Label × List Stmt} {name : String}
    (found : way ∈ ways (s :: rest)) (read : name ∈ way.1.condition.reads) :
    name ∈ s.mentions := by
  cases s with
  | assign line target value =>
    rw [ways, List.mem_singleton] at found
    simp [found, Label.fallthrough, Expr.reads] at read
  | ifElse line condition thenBody elseBody =>
    simp only [ways, List.mem_cons, List.not_mem_nil, or_false] at found
    rcases found with rfl | rfl
    · simp_all [mentions]
    · simp_all [mentions, Expr.reads_negate]
  | loop line condition body =>
    simp only [ways, List.mem_cons, List.not_mem_nil, or_false] at found
    rcases found with rfl | rfl
    · simp_all [mentions]
    · simp_all [mentions, Expr.reads_negate]
  | ret line value => simp [ways] at found

end Stmt

namespace Graph

open Stmt

/-- The points where control can be: the entry and the targets of edges. -/
def Visitable (g : Graph) (p : Point) : Prop :=
  g.entry = some p ∨ ∃ e ∈ g.edges, e.target = p

variable {f : FunctionDef}

/-- Control can only be at statements of the body. -/
theorem mem_occurrencesIn_of_visitable {p : Point} (visitable : (build f).Visitable p) :
    p.statement ∈ occurrencesIn f.body := by
  rcases visitable with entry | ⟨e, found, rfl⟩
  · obtain ⟨s, head, rfl⟩ := Option.map_eq_some_iff.mp entry
    obtain ⟨rest, body⟩ := List.head?_eq_some_iff.mp head
    have agenda : s :: rest ∈ agendas [] f.body := by
      simpa [body] using append_mem_agendas [] f.body
    exact mem_occurrencesIn_of_agenda agenda
  · obtain ⟨todo, agenda, s, -, way, onward, t, head, rfl⟩ := mem_edges_build.mp found
    obtain ⟨rest, next⟩ := List.head?_eq_some_iff.mp head
    have goes : way.2 ∈ agendas [] f.body ∨ way.2 = [] :=
      mem_agendas_of_way [] f.body agenda onward
    rw [next] at goes
    exact mem_occurrencesIn_of_agenda (goes.resolve_right (by simp))

/-- The condition of an edge reads names that the body mentions. -/
theorem mem_mentionsAll_of_edge {e : Edge} {name : String} (found : e ∈ (build f).edges)
    (read : name ∈ e.label.condition.reads) : name ∈ mentionsAll f.body := by
  obtain ⟨todo, agenda, s, head, way, onward, t, -, rfl⟩ := mem_edges_build.mp found
  obtain ⟨rest, rfl⟩ := List.head?_eq_some_iff.mp head
  exact mem_mentionsAll_of_occurrence (mem_mentions_of_way onward read) f.body
    (mem_occurrencesIn_of_agenda agenda)

end Graph

/-! ## Properties that a run keeps -/

namespace Analysis

variable {α : Type} [DecidableEq α]

/-- A property of environments that holds at the entry and that every part of a visit keeps. -/
structure Kept (A : Analysis α) (f : FunctionDef) (g : Graph) (P : Env α → Prop) : Prop where
  seed : P (Env.uniform f.variableSet.toList A.lattice.top)
  along : ∀ e ∈ g.edges, ∀ {env passed : Env α}, P env → A.along e.label env = some passed → P passed
  join : ∀ {env other : Env α}, P env → P other → P (env.join A.lattice other)
  widen : ∀ {last new : Env α}, P last → P new → P (A.widenEnv last new)
  transfer : ∀ {p : Point}, g.Visitable p → ∀ {env : Env α} {update : Update α}, P env →
    A.transfer p env = .ok update → P (env.updated update.bindings)

/-- A property holds of the environment that is there, if any. -/
def OnSome (P : Env α → Prop) (arrived : Option (Env α)) : Prop := ∀ env, arrived = some env → P env

/-- A property holds of all environments in a table. -/
def OnAll (P : Env α → Prop) (table : Table Point (Env α)) : Prop := ∀ p, OnSome P (table.get? p)

omit [DecidableEq α] in
/-- The empty table holds nothing to check. -/
theorem onAll_empty (P : Env α → Prop) : OnAll P .empty := by
  intro p env found
  cases found

omit [DecidableEq α] in
/-- Setting an environment with the property keeps it. -/
theorem OnAll.set {P : Env α → Prop} {table : Table Point (Env α)} {env : Env α} (all : OnAll P table)
    (p : Point) (holds : P env) : OnAll P (table.set p env) := by
  intro q stored found
  rw [Table.get?_set] at found
  split at found
  · cases found
    exact holds
  · exact all q stored found

variable {A : Analysis α} {config : Config} {f : FunctionDef} {g : Graph} {entry : Point}
  {P : Env α → Prop}

/-- The seed has the property. -/
theorem Kept.seed? (kept : A.Kept f g P) (p : Point) : OnSome P (A.seed? f entry p) := by
  intro env found
  unfold Analysis.seed? at found
  split at found
  · cases found
    exact kept.seed
  · cases found

/-- What arrives over an edge has the property. -/
theorem Kept.arrival (kept : A.Kept f g P) {outputs : Table Point (Env α)} (all : OnAll P outputs)
    {e : Edge} (found : e ∈ g.edges) : OnSome P (A.arrival outputs e) := by
  intro env arrived
  unfold Analysis.arrival at arrived
  split at arrived
  · next source stored => exact kept.along e found (all e.source source stored) arrived
  · cases arrived

/-- Joined arrivals have the property. -/
theorem Kept.joinArrivals (kept : A.Kept f g P) {joined arrived : Option (Env α)}
    (left : OnSome P joined) (right : OnSome P arrived) :
    OnSome P (A.joinArrivals joined arrived) := by
  intro env found
  cases joined with
  | none => exact right env found
  | some first =>
    cases arrived with
    | none => exact left env found
    | some second =>
      cases found
      exact kept.join (left first rfl) (right second rfl)

/-- The input of a point has the property. -/
theorem Kept.inflow (kept : A.Kept f g P) {outputs : Table Point (Env α)} (all : OnAll P outputs)
    {seed : Option (Env α)} (start : OnSome P seed) (p : Point) :
    OnSome P (A.inflow g outputs seed p) := by
  refine List.foldlRecOn (g.incoming p) _ start fun joined holds e found => ?_
  exact kept.joinArrivals holds (kept.arrival all (mem_incoming.mp found).1)

/-- A settled output has the property. -/
theorem Kept.settled (kept : A.Kept f g P) {p : Point} {last : Option (Env α)} {new output : Env α}
    (before : OnSome P last) (holds : P new) (settled : Settled A g p last new output) : P output := by
  cases settled with
  | replaced => exact holds
  | joined _ found => exact kept.join (before _ found) holds
  | widened _ found => exact kept.widen (before _ found) holds

/-- Control can be at the queued points, and everything stored has the property. -/
structure Keeps (P : Env α → Prop) (g : Graph) (run : Run α) : Prop where
  queue : ∀ p ∈ run.queue, g.Visitable p
  inputs : OnAll P run.inputs
  outputs : OnAll P run.outputs

/-- The output that a visit of a queued point settles on has the property. -/
theorem Kept.output (kept : A.Kept f g P) {run : Run α} (keeps : Keeps P g run) {p : Point}
    (queued : p ∈ run.queue) {input output : Env α} {update : Update α}
    (arrived : A.inflow g run.outputs (A.seed? f entry p) p = some input)
    (transferred : A.transfer p input = .ok update)
    (settled : Settled A g p (run.outputs.get? p) (input.updated update.bindings) output) :
    P output := by
  have holds : P input := kept.inflow keeps.outputs (kept.seed? p) p input arrived
  have new : P (input.updated update.bindings) :=
    kept.transfer (keeps.queue p queued) holds transferred
  exact kept.settled (keeps.outputs p) new settled

/-- **A visit keeps the property of everything stored.** -/
theorem Kept.advance (kept : A.Kept f g P) {run next : Run α} (keeps : Keeps P g run)
    (advance : A.Advances config f g entry run next) : Keeps P g next := by
  obtain ⟨p, rest, queue, visited⟩ := advance
  have queued : p ∈ run.queue := queue ▸ List.mem_cons_self
  have later : ∀ q ∈ rest, g.Visitable q := by
    intro q found
    exact keeps.queue q (queue ▸ List.mem_cons_of_mem p found)
  rcases visit_cases visited with ⟨-, inputs, outputs, same⟩ |
    ⟨input, update, output, arrived, transferred, settled, inputs, changes⟩
  · -- Nothing arrived, so only the queue is shorter.
    exact ⟨same ▸ later, inputs ▸ keeps.inputs, outputs ▸ keeps.outputs⟩
  · have holds : P input := kept.inflow keeps.outputs (kept.seed? p) p input arrived
    have stored : OnAll P next.inputs := inputs ▸ keeps.inputs.set p holds
    -- New points in the queue are targets of edges.
    rcases changes with ⟨-, outputs, same⟩ | ⟨-, outputs, same⟩
    · exact ⟨same ▸ later, stored, outputs ▸ keeps.outputs⟩
    · refine ⟨?_, stored, outputs ▸ keeps.outputs.set p ?_⟩
      · intro q found
        rw [same, mem_enqueue] at found
        rcases found with before | successor
        · exact later q before
        · obtain ⟨e, edge, -, target⟩ := mem_successors.mp successor
          exact Or.inr ⟨e, edge, target⟩
      · exact kept.output keeps queued arrived transferred settled

omit [DecidableEq α] in
/-- Before the first visit nothing is stored and the entry is queued. -/
theorem keeps_initial (P : Env α → Prop) (isEntry : g.entry = some entry) :
    Keeps P g (.initial entry) := by
  refine ⟨?_, onAll_empty P, onAll_empty P⟩
  intro p found
  rw [Run.initial, List.mem_singleton] at found
  exact Or.inl (found ▸ isEntry)

/-- At every moment of a run everything stored has the property. -/
theorem Kept.advances (kept : A.Kept f g P) (isEntry : g.entry = some entry) {run : Run α}
    (advances : Relation.ReflTransGen (A.Advances config f g entry) (.initial entry) run) :
    Keeps P g run := by
  induction advances with
  | refl => exact keeps_initial P isEntry
  | tail _ advance ih => exact kept.advance ih advance

/-- Everything that a result stores has the property. -/
theorem Kept.stored (kept : A.Kept f g P) {result : Result α}
    (ran : A.runOn config f g = .ok result) : OnAll P result.inputs ∧ OnAll P result.outputs := by
  rcases runOn_eq_ok ran with ⟨-, rfl⟩ | ⟨entry, final, present, advances, -, rfl⟩
  · exact ⟨onAll_empty P, onAll_empty P⟩
  · have keeps := kept.advances present advances
    exact ⟨keeps.inputs, keeps.outputs⟩

/-! ## The bound names -/

/-- The rules of an analysis speak only of names in the statement or the condition at hand. -/
structure Scoped (A : Analysis α) : Prop where
  transfer : ∀ {p : Point} {env : Env α} {update : Update α}, A.transfer p env = .ok update →
    ∀ name, (update.bindings.get? name).isSome = true → name ∈ p.statement.mentions
  narrow : ∀ {condition : Expr} {env bindings : Env α},
    (A.narrow condition env).bindings = some bindings →
    ∀ name, (bindings.get? name).isSome = true → name ∈ condition.reads

/-- The names that a body mentions are among the computed variables of its function. -/
theorem mem_variableSet_of_mentioned {line : Nat} {called : String} {parameters : List String}
    {body : List Stmt} {source : Option String} {name : String}
    (mentioned : name ∈ Stmt.mentionsAll body) :
    name ∈ (FunctionDef.make line called parameters body source).variableSet.toList :=
  NameSet.mem_toList_ofList.mpr (List.mem_append_right parameters mentioned)

/-- Binding exactly the computed variables is kept by every run over a function's own graph. -/
theorem Scoped.kept (speaks : A.Scoped) (line : Nat) (called : String) (parameters : List String)
    (body : List Stmt) (source : Option String) :
    A.Kept (.make line called parameters body source)
      (Graph.build (.make line called parameters body source))
      (Env.Binds · (FunctionDef.make line called parameters body source).variableSet.toList) where
  seed := Env.binds_uniform _ _
  along := by
    intro e found env passed binds passes
    rcases along_cases passes with ⟨-, bindings, said, refined⟩ | ⟨-, rfl⟩
    · refine binds.refine? (fun name bound => ?_) refined
      exact mem_variableSet_of_mentioned
        (Graph.mem_mentionsAll_of_edge found (speaks.narrow said name bound))
    · exact binds
  join := fun binds binds' => binds.join binds'
  widen := fun binds binds' => binds.combine _ binds'
  transfer := by
    intro p visitable env update binds transferred
    refine binds.updated fun name bound => ?_
    exact mem_variableSet_of_mentioned (Stmt.mem_mentionsAll_of_occurrence
      (speaks.transfer transferred name bound) body (Graph.mem_occurrencesIn_of_visitable visitable))

end Analysis

end Dataflow
