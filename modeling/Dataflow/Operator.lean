import Dataflow.Checked

/-!
# Operators

The four families of binary operators with their spellings. Comparisons have a negation, which
compares the same operands with the opposite answer, and order comparisons a flip, which gives the
same answer for the operands exchanged. The connectives `and` and `or` are dual to each other. Every
printer writes the two truth values they answer with by the same words (`Text.truth`).
-/

set_option autoImplicit false

namespace Dataflow

/-- The word for a truth value. -/
def Text.truth : Bool → String
  | true => "true"
  | false => "false"

/-- Integer arithmetic. -/
inductive ArithOp where
  | add
  | sub
  | mul
  | div
deriving DecidableEq

/-- Order comparison of integers. -/
inductive CompareOp where
  | lt
  | gt
  | le
  | ge
deriving DecidableEq

/-- Comparison of two values for equality. -/
inductive EqualityOp where
  | eq
  | ne
deriving DecidableEq

/-- Connectives of booleans. -/
inductive LogicOp where
  | and
  | or
deriving DecidableEq

namespace ArithOp

/-- The spelling. -/
def symbol : ArithOp → String
  | add => "+"
  | sub => "-"
  | mul => "*"
  | div => "/"

/-- The result on two words, when it is a word. -/
def evaluate : ArithOp → Int64 → Int64 → Option Int64
  | add => Checked.add
  | sub => Checked.sub
  | mul => Checked.mul
  | div => Checked.div

end ArithOp

namespace CompareOp

/-- The spelling. -/
def symbol : CompareOp → String
  | lt => "<"
  | gt => ">"
  | le => "<="
  | ge => ">="

/-- The comparison that holds exactly when this one fails. -/
def negate : CompareOp → CompareOp
  | lt => ge
  | gt => le
  | le => gt
  | ge => lt

/-- The comparison that holds of `b` and `a` exactly when this one holds of `a` and `b`. -/
def flip : CompareOp → CompareOp
  | lt => gt
  | gt => lt
  | le => ge
  | ge => le

/-- Whether the comparison holds of two words. -/
def holds : CompareOp → Int64 → Int64 → Bool
  | lt, a, b => decide (a < b)
  | gt, a, b => decide (b < a)
  | le, a, b => decide (a ≤ b)
  | ge, a, b => decide (b ≤ a)

end CompareOp

namespace EqualityOp

/-- The spelling. -/
def symbol : EqualityOp → String
  | eq => "=="
  | ne => "!="

/-- The comparison that holds exactly when this one fails. -/
def negate : EqualityOp → EqualityOp
  | eq => ne
  | ne => eq

end EqualityOp

namespace LogicOp

/-- The spelling. -/
def symbol : LogicOp → String
  | and => "and"
  | or => "or"

/-- The connective of the negated operands that gives the negated result. -/
def dual : LogicOp → LogicOp
  | and => or
  | or => and

end LogicOp

end Dataflow
