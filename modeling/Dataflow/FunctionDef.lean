import Dataflow.Stmt.Print

/-!
# Function definitions

A definition carries the set of its variables: its parameters and every name its body assigns or
reads. `FunctionDef.make` computes that set; the analyses start with exactly these names bound.
-/

set_option autoImplicit false

namespace Dataflow

/-- A function definition. -/
structure FunctionDef where
  /-- The line of the `function` keyword. -/
  line : Nat
  name : String
  parameters : List String
  variableSet : NameSet
  body : List Stmt
  /-- The text the definition was read from. -/
  source : Option String
deriving DecidableEq

namespace FunctionDef

/-- The variables of a function with the given parameters and body. -/
def variablesOf (parameters : List String) (body : List Stmt) : NameSet :=
  NameSet.ofList (parameters ++ Stmt.mentionsAll body)

/-- The definition with the given parts, its variables computed. -/
def make (line : Nat) (name : String) (parameters : List String) (body : List Stmt)
    (source : Option String) : FunctionDef :=
  ⟨line, name, parameters, variablesOf parameters body, body, source⟩

/-- The variables that are not parameters, in order. -/
def locals (f : FunctionDef) : List String :=
  f.variableSet.toList.filter fun name => !f.parameters.contains name

/-- The first statement on a line, in source order. -/
def statementAt? (f : FunctionDef) (line : Nat) : Option Stmt :=
  Stmt.atLineIn? line f.body

/-- The printed definition. -/
def render (f : FunctionDef) : String :=
  "function " ++ f.name ++ "(" ++ ", ".intercalate f.parameters ++ ") \x7b\n"
    ++ Stmt.renderAllAt 1 f.body ++ "\x7d"

end FunctionDef

end Dataflow
