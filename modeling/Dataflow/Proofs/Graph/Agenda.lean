import Dataflow.Proofs.Graph.Construction

/-!
# Agendas

The agenda at a statement of a body is what is left to do when control is there: the statement, the
rest of its sequence, and what follows the statements around it, where the body of a loop is followed
by the loop itself. `ways` lists where control can go from an agenda and under which label, so that
agendas are closed under going on (`mem_agendas_of_way`).

The edges of a function's graph are exactly the ways on from its agendas (`mem_edges_build`). When no
statement occurs twice in a body, the agenda is determined by the statement it begins with
(`agenda_unique`).
-/

set_option autoImplicit false

namespace Dataflow

namespace Stmt

mutual

/-- The statements in a statement, itself first, each before the ones in its bodies. -/
def occurrences : Stmt → List Stmt
  | assign line target value => [assign line target value]
  | ifElse line condition thenBody elseBody =>
    ifElse line condition thenBody elseBody ::
      (occurrencesIn thenBody ++ occurrencesIn elseBody)
  | loop line condition body => loop line condition body :: occurrencesIn body
  | ret line value => [ret line value]

/-- The statements in a list of statements. -/
def occurrencesIn : List Stmt → List Stmt
  | [] => []
  | s :: rest => occurrences s ++ occurrencesIn rest

end

mutual

/-- The agendas at the statements in a statement that is followed by `after`. -/
def agendasOf (after : List Stmt) : Stmt → List (List Stmt)
  | assign line target value => [assign line target value :: after]
  | ifElse line condition thenBody elseBody =>
    (ifElse line condition thenBody elseBody :: after) ::
      (agendas after thenBody ++ agendas after elseBody)
  | loop line condition body =>
    (loop line condition body :: after) :: agendas (loop line condition body :: after) body
  | ret line value => [ret line value :: after]

/-- The agendas at the statements in a sequence that is followed by `after`. -/
def agendas (after : List Stmt) : List Stmt → List (List Stmt)
  | [] => []
  | s :: rest => agendasOf (rest ++ after) s ++ agendas after rest

end

/-- Where control can go from an agenda: the label of the way and the agenda it leads to. -/
def ways : List Stmt → List (Label × List Stmt)
  | [] => []
  | assign _ _ _ :: rest => [(.fallthrough, rest)]
  | ifElse _ condition thenBody elseBody :: rest =>
    [(⟨condition, .whenTrue⟩, thenBody ++ rest), (⟨condition.negate, .whenFalse⟩, elseBody ++ rest)]
  | loop line condition body :: rest =>
    [(⟨condition, .whenTrue⟩, body ++ loop line condition body :: rest),
      (⟨condition.negate, .whenFalse⟩, rest)]
  | ret _ _ :: _ => []

/-! ## Agendas begin with the statements of the body -/

mutual

/-- The agendas at the statements in a statement begin with these statements, in order. -/
theorem map_head?_agendasOf (after : List Stmt) :
    ∀ s : Stmt, (agendasOf after s).map List.head? = (occurrences s).map some
  | assign _ _ _ => rfl
  | ifElse _ _ thenBody elseBody => by
    simp [agendasOf, occurrences, map_head?_agendas after thenBody,
      map_head?_agendas after elseBody]
  | loop line condition body => by
    simp [agendasOf, occurrences, map_head?_agendas (loop line condition body :: after) body]
  | ret _ _ => rfl

/-- The agendas at the statements in a sequence begin with these statements, in order. -/
theorem map_head?_agendas (after : List Stmt) :
    ∀ ss : List Stmt, (agendas after ss).map List.head? = (occurrencesIn ss).map some
  | [] => rfl
  | s :: rest => by
    simp [agendas, occurrencesIn, map_head?_agendasOf (rest ++ after) s,
      map_head?_agendas after rest]

end

/-- An agenda is not empty. -/
theorem exists_cons_of_mem_agendas {after ss todo : List Stmt} (found : todo ∈ agendas after ss) :
    ∃ s rest, todo = s :: rest := by
  have head : todo.head? ∈ (occurrencesIn ss).map some := by
    rw [← map_head?_agendas after ss]
    exact List.mem_map_of_mem found
  cases todo with
  | nil => simp at head
  | cons s rest => exact ⟨s, rest, rfl⟩

/-- An agenda begins with a statement of the body. -/
theorem mem_occurrencesIn_of_agenda {after ss rest : List Stmt} {s : Stmt}
    (agenda : s :: rest ∈ agendas after ss) : s ∈ occurrencesIn ss := by
  have head : some s ∈ (occurrencesIn ss).map some := by
    rw [← map_head?_agendas after ss]
    exact List.mem_map_of_mem (f := List.head?) agenda
  simpa using head

/-- **When no statement occurs twice, the first statement of an agenda determines it.** -/
theorem agenda_unique {after ss rest more : List Stmt} {s : Stmt} (distinct : (occurrencesIn ss).Nodup)
    (left : s :: rest ∈ agendas after ss) (right : s :: more ∈ agendas after ss) : rest = more := by
  have heads : ((agendas after ss).map List.head?).Nodup := by
    rw [map_head?_agendas]
    exact distinct.map fun _ _ => Option.some.inj
  have same := List.inj_on_of_nodup_map heads left right rfl
  exact (List.cons.inj same).2

/-! ## Agendas are closed under going on -/

/-- A sequence that is not empty is on the agenda at its own first statement. -/
theorem append_mem_agendas (after ss : List Stmt) :
    ss ++ after ∈ agendas after ss ∨ ss ++ after = after := by
  cases ss with
  | nil => exact Or.inr rfl
  | cons s rest =>
    refine Or.inl ?_
    rw [agendas]
    cases s <;> simp [agendasOf]

mutual

/-- The ways on from the agendas at a statement lead to its agendas or to what follows it. -/
theorem mem_agendasOf_of_way (after : List Stmt) : ∀ (s : Stmt) {todo next : List Stmt}
    {label : Label}, todo ∈ agendasOf after s → (label, next) ∈ ways todo →
      next ∈ agendasOf after s ∨ next = after
  | assign _ _ _, todo, next, label, here, way => by
    rw [agendasOf, List.mem_singleton] at here
    subst here
    simp only [ways, List.mem_singleton, Prod.mk.injEq] at way
    exact Or.inr way.2
  | ifElse line condition thenBody elseBody, todo, next, label, here, way => by
    rw [agendasOf, List.mem_cons, List.mem_append] at here ⊢
    rcases here with rfl | inThen | inElse
    · simp only [ways, List.mem_cons, Prod.mk.injEq, List.not_mem_nil, or_false] at way
      rcases way with ⟨-, rfl⟩ | ⟨-, rfl⟩
      · exact (append_mem_agendas _ _).imp (Or.inr ∘ Or.inl) id
      · exact (append_mem_agendas _ _).imp (Or.inr ∘ Or.inr) id
    · exact (mem_agendas_of_way after thenBody inThen way).imp (Or.inr ∘ Or.inl) id
    · exact (mem_agendas_of_way after elseBody inElse way).imp (Or.inr ∘ Or.inr) id
  | loop line condition body, todo, next, label, here, way => by
    -- The body is followed by the loop, whose own agenda is listed first.
    rw [agendasOf, List.mem_cons] at here ⊢
    rcases here with rfl | inBody
    · simp only [ways, List.mem_cons, Prod.mk.injEq, List.not_mem_nil, or_false] at way
      rcases way with ⟨-, rfl⟩ | ⟨-, rfl⟩
      · exact Or.inl (append_mem_agendas _ _).symm
      · exact Or.inr rfl
    · exact Or.inl (mem_agendas_of_way _ body inBody way).symm
  | ret _ _, todo, next, label, here, way => by
    rw [agendasOf, List.mem_singleton] at here
    subst here
    simp [ways] at way

/-- The ways on from the agendas of a sequence lead to its agendas or to what follows it. -/
theorem mem_agendas_of_way (after : List Stmt) : ∀ (ss : List Stmt) {todo next : List Stmt}
    {label : Label}, todo ∈ agendas after ss → (label, next) ∈ ways todo →
      next ∈ agendas after ss ∨ next = after
  | [], _, _, _, here, _ => by simp [agendas] at here
  | s :: rest, todo, next, label, here, way => by
    rw [agendas, List.mem_append] at here ⊢
    rcases here with inFirst | inRest
    · rcases mem_agendasOf_of_way (rest ++ after) s inFirst way with stays | rfl
      · exact Or.inl (Or.inl stays)
      · exact (append_mem_agendas _ _).imp Or.inr id
    · exact (mem_agendas_of_way after rest inRest way).imp Or.inr id

end

end Stmt

namespace Graph

open Stmt

/-! ## Edges of composed graphs -/

@[simp] theorem edges_empty : empty.edges = [] := rfl

@[simp] theorem edges_addPoint (g : Graph) (p : Point) : (g.addPoint p).edges = g.edges := by
  unfold addPoint
  split <;> rfl

@[simp] theorem mem_edges_addEdge {g : Graph} {e e' : Edge} :
    e' ∈ (g.addEdge e).edges ↔ e' ∈ g.edges ∨ e' = e := by
  simp only [addEdge, edges_addPoint]
  split
  · next found =>
    rw [edges_addPoint, edges_addPoint]
    exact ⟨Or.inl, fun there => there.elim id fun same => same ▸ found⟩
  · rw [List.mem_append, List.mem_singleton]

theorem mem_edges_foldl_addEdge {g : Graph} {edges : List Edge} {e : Edge} :
    e ∈ (edges.foldl addEdge g).edges ↔ e ∈ g.edges ∨ e ∈ edges := by
  induction edges generalizing g with
  | nil => simp
  | cons first rest ih =>
    rw [List.foldl_cons, ih, mem_edges_addEdge, List.mem_cons, or_assoc]

/-- Connecting exits adds an edge for each. -/
theorem connect_eq_foldl (g : Graph) (exits : List Exit) (target : Point) :
    g.connect exits target = (exits.map (·.edgeTo target)).foldl addEdge g := by
  rw [connect, List.foldl_map]

@[simp] theorem mem_edges_connect {g : Graph} {exits : List Exit} {target : Point} {e : Edge} :
    e ∈ (g.connect exits target).edges ↔
      e ∈ g.edges ∨ ∃ exit ∈ exits, e = exit.edgeTo target := by
  rw [connect_eq_foldl, mem_edges_foldl_addEdge, List.mem_map]
  simp only [eq_comm]

theorem edges_foldl_addPoint (points : List Point) (g : Graph) :
    (points.foldl addPoint g).edges = g.edges := by
  induction points generalizing g with
  | nil => rfl
  | cons p rest ih => rw [List.foldl_cons, ih, edges_addPoint]

@[simp] theorem mem_edges_merge {g h : Graph} {e : Edge} :
    e ∈ (g.merge h).edges ↔ e ∈ g.edges ∨ e ∈ h.edges := by
  simp only [merge]
  rw [mem_edges_foldl_addEdge, edges_foldl_addPoint]

/-! ## The edges of a function's graph -/

/-- The exits lead to the first of the statements that follow. -/
def Leads (exits : List Exit) (next : List Stmt) (e : Edge) : Prop :=
  ∃ exit ∈ exits, ∃ s ∈ next.head?, e = exit.edgeTo ⟨s⟩

/-- An edge from the first statement of an agenda along one of the ways on from it. -/
def IsWay (todo : List Stmt) (e : Edge) : Prop :=
  ∃ s ∈ todo.head?, ∃ way ∈ ways todo, ∃ t ∈ way.2.head?, e = ⟨⟨s⟩, ⟨t⟩, way.1⟩

@[simp] theorem leads_cons {exits : List Exit} {s : Stmt} {rest : List Stmt} {e : Edge} :
    Leads exits (s :: rest) e ↔ ∃ exit ∈ exits, e = exit.edgeTo ⟨s⟩ := by
  simp [Leads]

@[simp] theorem leads_append {exits others : List Exit} {next : List Stmt} {e : Edge} :
    Leads (exits ++ others) next e ↔ Leads exits next e ∨ Leads others next e := by
  simp [Leads, or_and_right, exists_or]

/-- From an agenda that begins with a branch, control leads along its two sides. -/
theorem isWay_ifElse {line : Nat} {condition : Expr} {thenBody elseBody rest : List Stmt} {e : Edge} :
    IsWay (.ifElse line condition thenBody elseBody :: rest) e ↔
      Leads [⟨⟨.ifElse line condition thenBody elseBody⟩, condition, .whenTrue⟩]
          (thenBody ++ rest) e ∨
        Leads [⟨⟨.ifElse line condition thenBody elseBody⟩, condition.negate, .whenFalse⟩]
          (elseBody ++ rest) e := by
  simp [IsWay, ways, Leads, Exit.edgeTo]

/-- From an agenda that begins with a loop, control leads into its body and past it. -/
theorem isWay_loop {line : Nat} {condition : Expr} {body rest : List Stmt} {e : Edge} :
    IsWay (.loop line condition body :: rest) e ↔
      Leads [⟨⟨.loop line condition body⟩, condition, .whenTrue⟩]
          (body ++ .loop line condition body :: rest) e ∨
        Leads [⟨⟨.loop line condition body⟩, condition.negate, .whenFalse⟩] rest e := by
  simp [IsWay, ways, Leads, Exit.edgeTo]

mutual

/-- The edges of a statement's graph, with its exits led to what follows, are the ways on from the
agendas in it. -/
theorem mem_edges_ofStatement (after : List Stmt) (e : Edge) : ∀ s : Stmt,
    e ∈ (ofStatement s).2.edges ∨ Leads (ofStatement s).1 after e ↔
      ∃ todo ∈ agendasOf after s, IsWay todo e
  | .assign line target value => by
    simp [ofStatement, agendasOf, Leads, IsWay, ways, Exit.edgeTo, Exit.fallthrough]
  | .ifElse line condition thenBody elseBody => by
    have yes := mem_edges_ofSequence after e thenBody empty
      [⟨⟨.ifElse line condition thenBody elseBody⟩, condition, .whenTrue⟩]
    have no := mem_edges_ofSequence after e elseBody empty
      [⟨⟨.ifElse line condition thenBody elseBody⟩, condition.negate, .whenFalse⟩]
    simp only [edges_empty, List.not_mem_nil, false_or] at yes no
    simp only [ofStatement, mem_edges_merge, edges_addPoint, edges_empty, List.not_mem_nil, false_or,
      leads_append, agendasOf, List.mem_cons, List.mem_append, or_and_right, exists_or,
      exists_eq_left, isWay_ifElse]
    rw [or_or_or_comm, yes, no, or_or_or_comm]
  | .loop line condition body => by
    have inner := mem_edges_ofSequence (.loop line condition body :: after) e body empty
      [⟨⟨.loop line condition body⟩, condition, .whenTrue⟩]
    simp only [leads_cons, edges_empty, List.not_mem_nil, false_or] at inner
    simp only [ofStatement, mem_edges_connect, mem_edges_merge, edges_addPoint, edges_empty,
      List.not_mem_nil, false_or, agendasOf, List.mem_cons, or_and_right, exists_or,
      exists_eq_left, isWay_loop]
    rw [inner, or_right_comm]
  | .ret line value => by
    simp [ofStatement, agendasOf, Leads, IsWay, ways]

/-- The edges of a sequence's graph, with its exits led to what follows, are those it started with,
the ones its entry exits lead along, and the ways on from the agendas in it. -/
theorem mem_edges_ofSequence (after : List Stmt) (e : Edge) :
    ∀ (ss : List Stmt) (g : Graph) (exits : List Exit),
      e ∈ (ofSequence g exits ss).2.edges ∨ Leads (ofSequence g exits ss).1 after e ↔
        e ∈ g.edges ∨ Leads exits (ss ++ after) e ∨ ∃ todo ∈ agendas after ss, IsWay todo e
  | [], g, exits => by simp [ofSequence, agendas]
  | s :: rest, g, exits => by
    have own := mem_edges_ofStatement (rest ++ after) e s
    rw [ofSequence, mem_edges_ofSequence after e rest]
    simp only [mem_edges_merge, mem_edges_connect, edges_addPoint, List.cons_append, leads_cons,
      agendas, List.mem_append, or_and_right, exists_or]
    rw [← own]
    simp only [or_assoc]

end

/-- **The edges of a function's graph are the ways on from the agendas of its body.** -/
theorem mem_edges_build {f : FunctionDef} {e : Edge} :
    e ∈ (build f).edges ↔ ∃ todo ∈ agendas [] f.body, IsWay todo e := by
  -- The body starts without exits, and the exits left at its end lead nowhere.
  have edges := mem_edges_ofSequence [] e f.body empty []
  rw [build_eq]
  simpa [Leads] using edges

end Graph

end Dataflow
