import Dataflow.Expr.Basic

/-!
# Evaluation of expressions

The values of expressions in a store. Arithmetic is checked, so an expression has no value where an
operation is undefined or an operand has the wrong type. A call may answer anything: a `World` fixes
the answers, each of which may depend on all calls made before it, and the evaluation hands the calls
on so that no two calls need to agree. The world also says whether connectives stop at a left operand
that decides them; every statement here holds for both readings.

Negation is exact: an expression has a Boolean value exactly when its negation has the other one, with
the same calls made on the way (`eval_negate`).
-/

set_option autoImplicit false

namespace Dataflow.Concrete

/-- What a variable holds. -/
inductive Value where
  | int (value : Int64)
  | bool (value : Bool)
deriving DecidableEq

/-- The values of all variables. -/
abbrev Store := String → Value

/-- The store with one variable overwritten. -/
def Store.set (σ : Store) (name : String) (value : Value) : Store :=
  fun other => if other = name then value else σ other

/-- A call that was made, with the values of its arguments. -/
structure Call where
  name : String
  arguments : List Value
deriving DecidableEq

/-- What the text of a program leaves open. -/
structure World where
  /-- Whether a connective skips its right operand when the left one decides. -/
  shortCircuit : Bool
  /-- The answer to the latest of the calls made so far, which is the first of the list. -/
  answer : List Call → Value

/-- Arithmetic on values: integers whose result is a word. -/
def arithmetic (op : ArithOp) : Value → Value → Option Value
  | .int a, .int b => (op.evaluate a b).map .int
  | _, _ => none

/-- Order comparison of values: integers only. -/
def comparison (op : CompareOp) : Value → Value → Option Value
  | .int a, .int b => some (.bool (op.holds a b))
  | _, _ => none

/-- Equality comparison of values; an integer and a boolean are different. -/
def agreement : EqualityOp → Value → Value → Bool
  | .eq, a, b => decide (a = b)
  | .ne, a, b => !decide (a = b)

/-- The left operand that decides a connective. -/
def decisive : LogicOp → Bool
  | .and => false
  | .or => true

/-- A connective on Booleans. -/
def combined : LogicOp → Bool → Bool → Bool
  | .and, a, b => a && b
  | .or, a, b => a || b

/-- A connective on values: booleans only. -/
def connective (op : LogicOp) : Value → Value → Option Value
  | .bool a, .bool b => some (.bool (combined op a b))
  | _, _ => none

/-- The logical negation of a value: booleans only. -/
def negation : Value → Option Value
  | .bool a => some (.bool (!a))
  | .int _ => none

mutual

/-- The value of an expression with the calls made after it, given the calls made before it. There is
none where the evaluation stops. -/
def eval (W : World) (σ : Store) : Expr → List Call → Option (Value × List Call)
  | .var name, calls => some (σ name, calls)
  | .int n, calls => some (.int n, calls)
  | .arith l op r, calls =>
    (eval W σ l calls).bind fun left =>
      (eval W σ r left.2).bind fun right =>
        (arithmetic op left.1 right.1).map fun v => (v, right.2)
  | .bool b, calls => some (.bool b, calls)
  | .not a, calls =>
    (eval W σ a calls).bind fun operand => (negation operand.1).map fun v => (v, operand.2)
  | .compare l op r, calls =>
    (eval W σ l calls).bind fun left =>
      (eval W σ r left.2).bind fun right =>
        (comparison op left.1 right.1).map fun v => (v, right.2)
  | .equality l op r, calls =>
    (eval W σ l calls).bind fun left =>
      (eval W σ r left.2).map fun right => (.bool (agreement op left.1 right.1), right.2)
  | .logic l op r, calls =>
    (eval W σ l calls).bind fun left =>
      if W.shortCircuit = true ∧ left.1 = .bool (decisive op) then some left
      else (eval W σ r left.2).bind fun right =>
        (connective op left.1 right.1).map fun v => (v, right.2)
  | .call name arguments, calls =>
    (evalAll W σ arguments calls).map fun evaluated =>
      let made := ⟨name, evaluated.1⟩ :: evaluated.2
      (W.answer made, made)

/-- The values of a list of expressions, from left to right. -/
def evalAll (W : World) (σ : Store) : List Expr → List Call → Option (List Value × List Call)
  | [], calls => some ([], calls)
  | e :: es, calls =>
    (eval W σ e calls).bind fun first =>
      (evalAll W σ es first.2).map fun others => (first.1 :: others.1, others.2)

end

/-! ## Values in terms of operands -/

/-- A connective has its value on two Booleans and on nothing else. -/
theorem connective_eq_some {op : LogicOp} {a b : Value} {answer : Bool}
    (value : connective op a b = some (.bool answer)) :
    ∃ x y, a = .bool x ∧ b = .bool y ∧ answer = combined op x y := by
  cases a with
  | int _ => simp [connective] at value
  | bool x =>
    cases b with
    | int _ => simp [connective] at value
    | bool y =>
      simp only [connective, Option.some.injEq, Value.bool.injEq] at value
      exact ⟨x, y, rfl, rfl, value.symm⟩

/-- Arithmetic has a value on two integers whose result is a word. -/
theorem arithmetic_eq_some_iff {op : ArithOp} {a b v : Value} :
    arithmetic op a b = some v ↔
      ∃ m n r, a = .int m ∧ b = .int n ∧ op.evaluate m n = some r ∧ v = .int r := by
  cases a with
  | bool _ => simp [arithmetic]
  | int m =>
    cases b with
    | bool _ => simp [arithmetic]
    | int n =>
      rw [arithmetic, Option.map_eq_some_iff]
      constructor
      · rintro ⟨r, result, rfl⟩
        exact ⟨m, n, r, rfl, rfl, result, rfl⟩
      · rintro ⟨_, _, r, left, right, result, rfl⟩
        cases left
        cases right
        exact ⟨r, result, rfl⟩

/-- An order comparison holds of two integers in that order. -/
theorem comparison_eq_true_iff {op : CompareOp} {a b : Value} :
    comparison op a b = some (.bool true) ↔
      ∃ m n, a = .int m ∧ b = .int n ∧ op.holds m n = true := by
  cases a <;> cases b <;> simp [comparison]

/-- A comparison turned around holds of the operands exchanged. -/
theorem holds_flip (op : CompareOp) (a b : Int64) : op.flip.holds a b = op.holds b a := by
  cases op <;> rfl

/-- Equality does not depend on the order of its operands. -/
theorem agreement_comm (op : EqualityOp) (a b : Value) : agreement op a b = agreement op b a := by
  cases op <;> simp [agreement, eq_comm]

section Operands

variable {W : World} {σ : Store} {l r : Expr} {calls after : List Call}

-- The tag derives the equations of `eval` here, once, before the lemmas below ask for them all at a time.
attribute [local simp] eval in
/-- The value of a variable. -/
theorem eval_var_iff {name : String} {v : Value} :
    eval W σ (.var name) calls = some (v, after) ↔ σ name = v ∧ calls = after := by
  simp

/-- The value of an arithmetic operation: integers whose result is a word. -/
theorem eval_arith_iff {op : ArithOp} {v : Value} :
    eval W σ (.arith l op r) calls = some (v, after) ↔
      ∃ m mid n result, eval W σ l calls = some (.int m, mid) ∧
        eval W σ r mid = some (.int n, after) ∧ op.evaluate m n = some result ∧
        v = .int result := by
  simp only [eval, Option.bind_eq_some_iff, Option.map_eq_some_iff, Prod.exists, Prod.mk.injEq]
  constructor
  · rintro ⟨a, mid, left, b, last, right, v, value, rfl, rfl⟩
    obtain ⟨m, n, result, rfl, rfl, evaluated, rfl⟩ := arithmetic_eq_some_iff.mp value
    exact ⟨m, mid, n, result, left, right, evaluated, rfl⟩
  · rintro ⟨m, mid, n, result, left, right, evaluated, rfl⟩
    exact ⟨.int m, mid, left, .int n, after, right, .int result,
      arithmetic_eq_some_iff.mpr ⟨m, n, result, rfl, rfl, evaluated, rfl⟩, rfl, rfl⟩

/-- The value of an order comparison. -/
theorem eval_compare_iff {op : CompareOp} {v : Value} :
    eval W σ (.compare l op r) calls = some (v, after) ↔
      ∃ a mid b, eval W σ l calls = some (a, mid) ∧ eval W σ r mid = some (b, after) ∧
        comparison op a b = some v := by
  simp only [eval, Option.bind_eq_some_iff, Option.map_eq_some_iff, Prod.exists, Prod.mk.injEq]
  constructor
  · rintro ⟨a, mid, left, b, last, right, v, value, rfl, rfl⟩
    exact ⟨a, mid, b, left, right, value⟩
  · rintro ⟨a, mid, b, left, right, value⟩
    exact ⟨a, mid, left, b, after, right, v, value, rfl, rfl⟩

/-- An order comparison holds between integers in that order. -/
theorem eval_compare_true_iff {op : CompareOp} :
    eval W σ (.compare l op r) calls = some (.bool true, after) ↔
      ∃ m mid n, eval W σ l calls = some (.int m, mid) ∧ eval W σ r mid = some (.int n, after) ∧
        op.holds m n = true := by
  rw [eval_compare_iff]
  constructor
  · rintro ⟨a, mid, b, left, right, value⟩
    obtain ⟨m, n, rfl, rfl, holds⟩ := comparison_eq_true_iff.mp value
    exact ⟨m, mid, n, left, right, holds⟩
  · rintro ⟨m, mid, n, left, right, holds⟩
    exact ⟨.int m, mid, .int n, left, right, comparison_eq_true_iff.mpr ⟨m, n, rfl, rfl, holds⟩⟩

/-- The value of an equality comparison. -/
theorem eval_equality_iff {op : EqualityOp} {v : Value} :
    eval W σ (.equality l op r) calls = some (v, after) ↔
      ∃ a mid b, eval W σ l calls = some (a, mid) ∧ eval W σ r mid = some (b, after) ∧
        v = .bool (agreement op a b) := by
  simp only [eval, Option.bind_eq_some_iff, Option.map_eq_some_iff, Prod.exists, Prod.mk.injEq]
  constructor
  · rintro ⟨a, mid, left, b, last, right, rfl, rfl⟩
    exact ⟨a, mid, b, left, right, rfl⟩
  · rintro ⟨a, mid, b, left, right, rfl⟩
    exact ⟨a, mid, left, b, after, right, rfl, rfl⟩

/-- A negation has a Boolean value exactly when its operand has the other one. -/
theorem eval_not_iff {answer : Bool} :
    eval W σ (.not l) calls = some (.bool answer, after) ↔
      eval W σ l calls = some (.bool (!answer), after) := by
  rw [eval]
  rcases eval W σ l calls with _ | ⟨_ | x, mid⟩
  · simp
  · simp [negation]
  · cases x <;> cases answer <;> simp [negation]

/-- The value of a connective: the left operand alone where it decides and the world lets it. -/
theorem eval_logic_iff {op : LogicOp} {answer : Bool} :
    eval W σ (.logic l op r) calls = some (.bool answer, after) ↔
      ∃ x mid, eval W σ l calls = some (.bool x, mid) ∧
        ((W.shortCircuit = true ∧ x = decisive op) ∧ answer = x ∧ after = mid ∨
          ¬ (W.shortCircuit = true ∧ x = decisive op) ∧
            ∃ y, eval W σ r mid = some (.bool y, after) ∧ answer = combined op x y) := by
  simp only [eval, Option.bind_eq_some_iff, Prod.exists]
  constructor
  · rintro ⟨a, mid, left, rest⟩
    split at rest
    · next skip =>
      obtain ⟨short, rfl⟩ := skip
      cases rest
      exact ⟨_, _, left, Or.inl ⟨⟨short, rfl⟩, rfl, rfl⟩⟩
    · next goes =>
      simp only [Option.bind_eq_some_iff, Option.map_eq_some_iff, Prod.exists, Prod.mk.injEq] at rest
      obtain ⟨b, last, right, v, value, rfl, rfl⟩ := rest
      obtain ⟨x, y, rfl, rfl, rfl⟩ := connective_eq_some value
      exact ⟨x, mid, left, Or.inr ⟨by simpa using goes, y, right, rfl⟩⟩
  · rintro ⟨x, mid, left, ⟨⟨short, rfl⟩, rfl, rfl⟩ | ⟨goes, y, right, rfl⟩⟩
    · exact ⟨_, after, left, by rw [if_pos ⟨short, rfl⟩]⟩
    · refine ⟨_, mid, left, ?_⟩
      rw [if_neg (by simpa using goes), right]
      rfl

end Operands

/-! ## Negation -/

/-- The opposite comparison gives the opposite answer. -/
theorem holds_negate (op : CompareOp) (a b : Int64) : op.negate.holds a b = !op.holds a b := by
  cases op <;>
    simp [CompareOp.negate, CompareOp.holds, ← decide_not, Int64.not_lt, Int64.not_le]

/-- The opposite comparison of values has the opposite answer, and an answer in the same cases. -/
theorem comparison_negate (op : CompareOp) (a b : Value) (answer : Bool) :
    comparison op.negate a b = some (.bool (!answer)) ↔
      comparison op a b = some (.bool answer) := by
  cases a <;> cases b <;> simp [comparison, holds_negate]

/-- The opposite equality comparison gives the opposite answer. -/
theorem agreement_negate (op : EqualityOp) (a b : Value) :
    agreement op.negate a b = !agreement op a b := by
  cases op <;> simp [EqualityOp.negate, agreement]

/-- The dual connective is decided by the opposite operand. -/
theorem decisive_dual (op : LogicOp) : decisive op.dual = !decisive op := by
  cases op <;> rfl

/-- De Morgan: the dual connective of the opposite operands gives the opposite answer. -/
theorem combined_dual (op : LogicOp) (a b : Bool) :
    combined op.dual (!a) (!b) = !combined op a b := by
  cases op <;> simp [combined, LogicOp.dual]

/-- **Negation is exact.** An expression has a Boolean value exactly when its negation has the other
one, and both evaluations make the same calls. -/
theorem eval_negate (W : World) (σ : Store) : ∀ (e : Expr) (calls after : List Call) (answer : Bool),
    eval W σ e.negate calls = some (.bool (!answer), after) ↔
      eval W σ e calls = some (.bool answer, after)
  | .var _, _, _, _ => by simp [Expr.negate, eval_not_iff]
  | .int _, _, _, _ => by simp [Expr.negate, eval_not_iff]
  | .arith _ _ _, _, _, _ => by simp [Expr.negate, eval_not_iff]
  | .bool _, _, _, _ => by simp [Expr.negate, eval]
  | .not _, _, _, _ => by simp [Expr.negate, eval_not_iff]
  | .compare l op r, calls, after, answer => by
    simp [Expr.negate, eval_compare_iff, comparison_negate]
  | .equality l op r, calls, after, answer => by
    simp [Expr.negate, eval_equality_iff, agreement_negate]
  | .logic l op r, calls, after, answer => by
    -- The left operand decides the dual connective exactly when its negation decides this one.
    rw [Expr.negate, eval_logic_iff, eval_logic_iff]
    constructor
    · rintro ⟨x, mid, left, rest⟩
      refine ⟨!x, mid, (eval_negate W σ l calls mid (!x)).mp (by simpa using left), ?_⟩
      rw [decisive_dual] at rest
      rcases rest with ⟨⟨short, rfl⟩, same, rfl⟩ | ⟨goes, y, right, same⟩
      · exact Or.inl ⟨⟨short, by simp⟩, by simpa using same, rfl⟩
      · refine Or.inr ⟨by simpa [Bool.not_eq_eq_eq_not] using goes, !y,
          (eval_negate W σ r mid after (!y)).mp (by simpa using right), ?_⟩
        rw [← Bool.not_inj_iff, same, ← combined_dual, Bool.not_not, Bool.not_not]
    · rintro ⟨x, mid, left, rest⟩
      refine ⟨!x, mid, (eval_negate W σ l calls mid x).mpr left, ?_⟩
      rw [decisive_dual]
      rcases rest with ⟨⟨short, rfl⟩, rfl, rfl⟩ | ⟨goes, y, right, rfl⟩
      · exact Or.inl ⟨⟨short, rfl⟩, rfl, rfl⟩
      · exact Or.inr ⟨by simpa using goes, !y, (eval_negate W σ r mid after y).mpr right,
          (combined_dual op x y).symm⟩
  | .call _ _, _, _, _ => by simp [Expr.negate, eval_not_iff]

end Dataflow.Concrete
