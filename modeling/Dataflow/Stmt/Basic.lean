import Dataflow.Expr.Basic

/-!
# Statements

Statement trees. A statement carries the number of the source line it starts on; the number is part
of the statement, so equal statements on different lines differ.
-/

set_option autoImplicit false

namespace Dataflow

/-- Statement trees. -/
inductive Stmt where
  | assign (line : Nat) (target : String) (value : Expr)
  | ifElse (line : Nat) (condition : Expr) (thenBody elseBody : List Stmt)
  | loop (line : Nat) (condition : Expr) (body : List Stmt)
  | ret (line : Nat) (value : Expr)

namespace Stmt

mutual

/-- Equality of trees. -/
def same : Stmt → Stmt → Bool
  | assign n x e, assign n' x' e' => decide (n = n') && decide (x = x') && decide (e = e')
  | ifElse n c s t, ifElse n' c' s' t' =>
    decide (n = n') && decide (c = c') && sameAll s s' && sameAll t t'
  | loop n c s, loop n' c' s' => decide (n = n') && decide (c = c') && sameAll s s'
  | ret n e, ret n' e' => decide (n = n') && decide (e = e')
  | _, _ => false

/-- Equality of lists of trees. -/
def sameAll : List Stmt → List Stmt → Bool
  | [], [] => true
  | s :: ss, t :: ts => same s t && sameAll ss ts
  | _, _ => false

end

mutual

/-- Trees that `same` accepts are equal. -/
theorem eq_of_same : ∀ (s t : Stmt), same s t = true → s = t
  | assign _ _ _, t, h => by cases t <;> simp_all [same]
  | ifElse _ _ s t, u, h => by
    cases u <;> simp [same] at h
    case ifElse _ _ s' t' =>
      rw [h.1.1.1, h.1.1.2, eq_of_sameAll s s' h.1.2, eq_of_sameAll t t' h.2]
  | loop _ _ s, t, h => by
    cases t <;> simp [same] at h
    case loop _ _ s' => rw [h.1.1, h.1.2, eq_of_sameAll s s' h.2]
  | ret _ _, t, h => by cases t <;> simp_all [same]

/-- Lists that `sameAll` accepts are equal. -/
theorem eq_of_sameAll : ∀ (ss ts : List Stmt), sameAll ss ts = true → ss = ts
  | [], ts, h => by cases ts <;> simp_all [sameAll]
  | s :: ss, ts, h => by
    cases ts <;> simp [sameAll] at h
    case cons t ts => rw [eq_of_same s t h.1, eq_of_sameAll ss ts h.2]

end

mutual

/-- `same` accepts a tree and itself. -/
theorem same_self : ∀ s : Stmt, same s s = true
  | assign _ _ _ => by simp [same]
  | ifElse _ _ s t => by simp [same, sameAll_self s, sameAll_self t]
  | loop _ _ s => by simp [same, sameAll_self s]
  | ret _ _ => by simp [same]

/-- `sameAll` accepts a list and itself. -/
theorem sameAll_self : ∀ ss : List Stmt, sameAll ss ss = true
  | [] => rfl
  | s :: ss => by simp [sameAll, same_self s, sameAll_self ss]

end

/-- `same` decides equality. -/
theorem same_iff {s t : Stmt} : same s t = true ↔ s = t :=
  ⟨eq_of_same s t, fun equal => equal ▸ same_self s⟩

instance : DecidableEq Stmt := fun _ _ => decidable_of_iff _ same_iff

/-- The source line. -/
def line : Stmt → Nat
  | assign line _ _ => line
  | ifElse line _ _ _ => line
  | loop line _ _ => line
  | ret line _ => line

/-- The condition of a branch or loop. -/
def condition? : Stmt → Option Expr
  | ifElse _ condition _ _ => some condition
  | loop _ condition _ => some condition
  | _ => none

/-- Loops. -/
def isLoop : Stmt → Bool
  | loop _ _ _ => true
  | _ => false

mutual

/-- The names assigned or read, nested bodies included, one for each occurrence. -/
def mentions : Stmt → List String
  | assign _ target value => target :: value.reads
  | ifElse _ condition thenBody elseBody =>
    condition.reads ++ mentionsAll thenBody ++ mentionsAll elseBody
  | loop _ condition body => condition.reads ++ mentionsAll body
  | ret _ value => value.reads

/-- The names assigned or read by a list of statements. -/
def mentionsAll : List Stmt → List String
  | [] => []
  | s :: ss => mentions s ++ mentionsAll ss

end

/-- The set of names assigned or read. -/
def variableSet (s : Stmt) : NameSet := NameSet.ofList s.mentions

mutual

/-- The first statement on a line, the statement itself before its bodies. -/
def atLine? (line : Nat) : Stmt → Option Stmt
  | assign n x e => if n = line then some (assign n x e) else none
  | ifElse n c s t =>
    if n = line then some (ifElse n c s t)
    else match atLineIn? line s with
      | some found => some found
      | none => atLineIn? line t
  | loop n c s => if n = line then some (loop n c s) else atLineIn? line s
  | ret n e => if n = line then some (ret n e) else none

/-- The first statement on a line in a list of statements. -/
def atLineIn? (line : Nat) : List Stmt → Option Stmt
  | [] => none
  | s :: ss =>
    match atLine? line s with
    | some found => some found
    | none => atLineIn? line ss

end

end Stmt

end Dataflow
