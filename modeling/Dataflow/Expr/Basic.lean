import Dataflow.NameMap
import Dataflow.Operator

/-!
# Expressions

Expression trees, their equality, their logical negation and the variables they read. Negation
pushes through comparisons and connectives, so a negated condition is again one the analyses have
rules for.
-/

set_option autoImplicit false

namespace Dataflow

/-- Expression trees. -/
inductive Expr where
  | var (name : String)
  | int (value : Int64)
  | arith (left : Expr) (op : ArithOp) (right : Expr)
  | bool (value : Bool)
  | not (operand : Expr)
  | compare (left : Expr) (op : CompareOp) (right : Expr)
  | equality (left : Expr) (op : EqualityOp) (right : Expr)
  | logic (left : Expr) (op : LogicOp) (right : Expr)
  | call (name : String) (arguments : List Expr)

namespace Expr

mutual

/-- Equality of trees. -/
def same : Expr → Expr → Bool
  | var a, var b => decide (a = b)
  | int a, int b => decide (a = b)
  | arith l o r, arith l' o' r' => same l l' && decide (o = o') && same r r'
  | bool a, bool b => decide (a = b)
  | not a, not b => same a b
  | compare l o r, compare l' o' r' => same l l' && decide (o = o') && same r r'
  | equality l o r, equality l' o' r' => same l l' && decide (o = o') && same r r'
  | logic l o r, logic l' o' r' => same l l' && decide (o = o') && same r r'
  | call f as, call g bs => decide (f = g) && sameAll as bs
  | _, _ => false

/-- Equality of lists of trees. -/
def sameAll : List Expr → List Expr → Bool
  | [], [] => true
  | a :: as, b :: bs => same a b && sameAll as bs
  | _, _ => false

end

mutual

/-- Trees that `same` accepts are equal. -/
theorem eq_of_same : ∀ (a b : Expr), same a b = true → a = b
  | var _, b, h => by cases b <;> simp_all [same]
  | int _, b, h => by cases b <;> simp_all [same]
  | arith l _ r, b, h => by
    cases b <;> simp [same] at h
    case arith l' _ r' => rw [eq_of_same l l' h.1.1, h.1.2, eq_of_same r r' h.2]
  | bool _, b, h => by cases b <;> simp_all [same]
  | not a, b, h => by
    cases b <;> simp [same] at h
    case not b => rw [eq_of_same a b h]
  | compare l _ r, b, h => by
    cases b <;> simp [same] at h
    case compare l' _ r' => rw [eq_of_same l l' h.1.1, h.1.2, eq_of_same r r' h.2]
  | equality l _ r, b, h => by
    cases b <;> simp [same] at h
    case equality l' _ r' => rw [eq_of_same l l' h.1.1, h.1.2, eq_of_same r r' h.2]
  | logic l _ r, b, h => by
    cases b <;> simp [same] at h
    case logic l' _ r' => rw [eq_of_same l l' h.1.1, h.1.2, eq_of_same r r' h.2]
  | call _ as, b, h => by
    cases b <;> simp [same] at h
    case call _ bs => rw [h.1, eq_of_sameAll as bs h.2]

/-- Lists that `sameAll` accepts are equal. -/
theorem eq_of_sameAll : ∀ (as bs : List Expr), sameAll as bs = true → as = bs
  | [], bs, h => by cases bs <;> simp_all [sameAll]
  | a :: as, bs, h => by
    cases bs <;> simp [sameAll] at h
    case cons b bs => rw [eq_of_same a b h.1, eq_of_sameAll as bs h.2]

end

mutual

/-- `same` accepts a tree and itself. -/
theorem same_self : ∀ a : Expr, same a a = true
  | var _ => by simp [same]
  | int _ => by simp [same]
  | arith l _ r => by simp [same, same_self l, same_self r]
  | bool _ => by simp [same]
  | not a => by simp [same, same_self a]
  | compare l _ r => by simp [same, same_self l, same_self r]
  | equality l _ r => by simp [same, same_self l, same_self r]
  | logic l _ r => by simp [same, same_self l, same_self r]
  | call _ as => by simp [same, sameAll_self as]

/-- `sameAll` accepts a list and itself. -/
theorem sameAll_self : ∀ as : List Expr, sameAll as as = true
  | [] => rfl
  | a :: as => by simp [sameAll, same_self a, sameAll_self as]

end

/-- `same` decides equality. -/
theorem same_iff {a b : Expr} : same a b = true ↔ a = b :=
  ⟨eq_of_same a b, fun equal => equal ▸ same_self a⟩

instance : DecidableEq Expr := fun _ _ => decidable_of_iff _ same_iff

/-- The logical negation: constants and comparisons turn around, a negation is taken off, the
connectives follow De Morgan, and anything else is wrapped. -/
def negate : Expr → Expr
  | bool value => bool (!value)
  | not operand => operand
  | compare l o r => compare l o.negate r
  | equality l o r => equality l o.negate r
  | logic l o r => logic (negate l) o.dual (negate r)
  | e => not e

/-- Variables and constants. -/
def isAtomic : Expr → Bool
  | var _ | int _ | bool _ => true
  | _ => false

mutual

/-- The names of the variables read, one for each occurrence, from left to right. -/
def reads : Expr → List String
  | var name => [name]
  | int _ => []
  | arith l _ r => reads l ++ reads r
  | bool _ => []
  | not a => reads a
  | compare l _ r => reads l ++ reads r
  | equality l _ r => reads l ++ reads r
  | logic l _ r => reads l ++ reads r
  | call _ as => readsAll as

/-- The names read by a list of expressions. -/
def readsAll : List Expr → List String
  | [] => []
  | a :: as => reads a ++ readsAll as

end

/-- The set of variables read. -/
def variableSet (e : Expr) : NameSet := NameSet.ofList e.reads

end Expr

end Dataflow
