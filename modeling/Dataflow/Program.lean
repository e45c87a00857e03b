import Dataflow.FunctionDef
import Dataflow.Grammar.Expected
import Dataflow.Token.Lexeme

/-!
# Programs

From a text to its function definitions. A text fails for its first unreadable piece, else for its
first impossible token, else for the first definition that repeats an earlier name or one of its own
parameters. Statements are numbered by the line their first token is on.
-/

set_option autoImplicit false

namespace Dataflow

/-- Why a text is not a program. -/
inductive ParseError where
  /-- A piece of the text is no token. -/
  | unknownText (position : Text.Position) (text : String)
  /-- A token, or the end of the text, is impossible. -/
  | unexpected (position : Text.Position) (found : Option Token) (expected : List String)
  /-- A function has the name of an earlier one. -/
  | duplicateFunction (name : String) (line previous : Nat)
  /-- A function has two parameters of one name. -/
  | duplicateParameter (function name : String)
  /-- One function was asked for and another number found. -/
  | notSingle (found : Nat)
deriving DecidableEq

namespace ParseError

/-- What was found, in words. -/
def foundText : Option Token → String
  | some token => "'" ++ token.text ++ "'"
  | none => "end of input"

/-- A position in words. -/
def positionText (position : Text.Position) : String :=
  toString position.line ++ ":" ++ toString position.column

/-- The message. -/
def message : ParseError → String
  | unknownText position text =>
    "unexpected character `" ++ text ++ "` at " ++ positionText position
  | unexpected position found expected =>
    "syntax error at " ++ positionText position ++ ": found " ++ foundText found
      ++ " expected " ++ alternatives expected
  | duplicateFunction name line previous =>
    "function `" ++ name ++ "` at line " ++ toString line ++ " is already defined at line "
      ++ toString previous
  | duplicateParameter function name =>
    "parameter `" ++ name ++ "` of function `" ++ function ++ "` is declared twice"
  | notSingle found => "expected exactly one function, found " ++ toString found

/-- The line the error points at. -/
def line? : ParseError → Option Nat
  | unknownText position _ => some position.line
  | unexpected position _ _ => some position.line
  | duplicateFunction _ line _ => some line
  | duplicateParameter _ _ => none
  | notSingle _ => none

/-- The column the error points at. -/
def column? : ParseError → Option Nat
  | unknownText position _ => some position.column
  | unexpected position _ _ => some position.column
  | _ => none

end ParseError

namespace Program

/-- Readings with their lines, when every one is a token. -/
def locate (index : Text.LineIndex) (readings : List (Spanned (Option Token))) : List Located :=
  readings.filterMap fun item =>
    item.value.map fun token => ⟨token, index.line item.start, item.start, item.stop⟩

/-- The error for the place where reading tokens stopped; at the end of the text it is the end of
the last token. -/
def stuckError (index : Text.LineIndex) (tokens : List Located) (stuck : Reading.Stuck) :
    ParseError :=
  match stuck.found with
  | some t => .unexpected (index.position t.start) (some t.token) stuck.reading.phase.expected
  | none =>
    let last := (tokens.getLast?.map (·.stop)).getD 0
    .unexpected (index.position last) none stuck.reading.phase.expected

/-- The first name in a list that is among the `earlier` ones or before it in the list. -/
def firstRepeated? (earlier : List String) : List String → Option String
  | [] => none
  | name :: rest => if name ∈ earlier then some name else firstRepeated? (name :: earlier) rest

/-- The function a definition in `text` stands for. -/
def toFunction (text : List Char) (definition : Definition) : FunctionDef :=
  FunctionDef.make definition.line definition.name definition.parameters definition.body
    (some (String.ofList (Text.slice text definition.start definition.stop)))

/-- The functions of definitions in order, given the names and lines of the earlier ones. -/
def collect (text : List Char) (earlier : List (String × Nat)) :
    List Definition → Except ParseError (List FunctionDef)
  | [] => .ok []
  | definition :: rest =>
    match earlier.lookup definition.name with
    | some previous => .error (.duplicateFunction definition.name definition.line previous)
    | none =>
      match firstRepeated? [] definition.parameters with
      | some name => .error (.duplicateParameter definition.name name)
      | none =>
        match collect text ((definition.name, definition.line) :: earlier) rest with
        | .error cause => .error cause
        | .ok functions => .ok (toFunction text definition :: functions)

/-- The functions of a program text. -/
def parseText (text : List Char) : Except ParseError (List FunctionDef) :=
  let index := Text.LineIndex.ofText text
  let readings := readTokens text
  match readings.find? (·.value.isNone) with
  | some item =>
    .error (.unknownText (index.position item.start)
      (String.ofList (Text.slice text item.start item.stop)))
  | none =>
    let tokens := locate index readings
    match readDefinitions tokens with
    | .error stuck => .error (stuckError index tokens stuck)
    | .ok definitions => collect text [] definitions

/-- The functions of a program. -/
def parse (text : String) : Except ParseError (List FunctionDef) :=
  parseText text.toList

/-- The function of a program that has exactly one. -/
def parseSingle (text : String) : Except ParseError FunctionDef :=
  match parse text with
  | .error cause => .error cause
  | .ok [only] => .ok only
  | .ok functions => .error (.notSingle functions.length)

end Program

end Dataflow
