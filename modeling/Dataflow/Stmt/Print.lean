import Dataflow.Expr.Print
import Dataflow.Stmt.Basic

/-!
# Printed statements

One statement to a line, bodies indented by four spaces. A branch whose second body is empty is
printed without it.
-/

set_option autoImplicit false

namespace Dataflow.Stmt

/-- A statement on one line, without its bodies. -/
def header : Stmt → String
  | assign _ target value => target ++ " = " ++ value.render
  | ifElse _ condition _ _ => "if (" ++ condition.render ++ ")"
  | loop _ condition _ => "while (" ++ condition.render ++ ")"
  | ret _ value => "return " ++ value.render

/-- The blanks before a line at a given depth. -/
def indentation (depth : Nat) : String :=
  String.ofList (List.replicate (4 * depth) ' ')

mutual

/-- The lines of a statement at a given depth. -/
def renderAt (depth : Nat) : Stmt → String
  | assign line target value =>
    indentation depth ++ header (assign line target value) ++ ";\n"
  | ifElse line condition thenBody elseBody =>
    indentation depth ++ header (ifElse line condition thenBody elseBody) ++ " \x7b\n"
      ++ renderAllAt (depth + 1) thenBody
      ++ (match elseBody with
        | [] => ""
        | _ => indentation depth ++ "\x7d else \x7b\n" ++ renderAllAt (depth + 1) elseBody)
      ++ indentation depth ++ "\x7d\n"
  | loop line condition body =>
    indentation depth ++ header (loop line condition body) ++ " \x7b\n"
      ++ renderAllAt (depth + 1) body ++ indentation depth ++ "\x7d\n"
  | ret line value => indentation depth ++ header (ret line value) ++ ";\n"

/-- The lines of a list of statements at a given depth. -/
def renderAllAt (depth : Nat) : List Stmt → String
  | [] => ""
  | s :: ss => renderAt depth s ++ renderAllAt depth ss

end

/-- The lines of a statement. -/
def render (s : Stmt) : String := s.renderAt 0

end Dataflow.Stmt
