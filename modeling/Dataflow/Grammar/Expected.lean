import Dataflow.Grammar.Phase

/-!
# What could have been read

Each phase names what it could have gone on with. The names are listed as `a`, `a, or b`,
`a, b, or c` and so on.
-/

set_option autoImplicit false

namespace Dataflow

/-- What may start a statement or end a block. -/
def statementStarts : List String :=
  ["assignment", "if statement", "while statement", "return statement", "'\x7d'"]

/-- What may end an expression read for a purpose. -/
def Purpose.closers : Purpose → List String
  | assign _ _ => ["';'"]
  | ret _ => ["';'"]
  | branch _ => ["')'"]
  | loop _ => ["')'"]

/-- What may end an expression inside its innermost delimiter. -/
def Frame.closers (purpose : Purpose) : List Frame → List String
  | [] => purpose.closers
  | .unary _ :: frames => closers purpose frames
  | .binary _ _ :: frames => closers purpose frames
  | .group :: _ => ["')'"]
  | .call _ _ :: _ => ["','", "')'"]

/-- What may follow a complete operand. -/
def operatorStarts (frames : List Frame) (purpose : Purpose) : List String :=
  ["something else", "'and'", "'or'"] ++ Frame.closers purpose frames

/-- What may be read inside a body. -/
def Spot.expected : Spot → List String
  | statement => statementStarts
  | afterThen _ _ _ => "'else'" :: statementStarts
  | target _ _ => ["'='"]
  | guard _ => ["condition"]
  | opening _ => ["block"]
  | operand .start _ _ => ["expression"]
  | operand .firstArgument _ _ => ["expression", "')'"]
  | operand .afterOperator _ _ => ["'-'", "'!'", "literal", "identifier", "'('"]
  | name _ frames purpose => "argument list" :: operatorStarts frames purpose
  | value _ frames purpose => operatorStarts frames purpose

/-- What may be read in a phase. -/
def Phase.expected : Phase → List String
  | between => ["function", "end of input"]
  | functionWord _ _ => ["identifier"]
  | functionName _ => ["parameter list"]
  | parametersOpen _ => ["identifier", "')'"]
  | parameter _ => ["','", "')'"]
  | parameterComma _ => ["identifier"]
  | parametersClosed _ => ["function body"]
  | body _ _ spot => spot.expected

/-- A list of alternatives in words. -/
def alternatives : List String → String
  | [] => ""
  | [only] => only
  | [left, right] => left ++ ", or " ++ right
  | first :: rest => first ++ ", " ++ alternatives rest

end Dataflow
