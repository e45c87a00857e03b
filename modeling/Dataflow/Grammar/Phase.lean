import Dataflow.Grammar.Frame
import Dataflow.Stmt.Basic

/-!
# Reading definitions token by token

The grammar of the language as a machine: a phase says what has been read of the definition in
progress, and `Phase.next?` reads one token or finds it impossible. The machine never looks back and
never looks ahead, so the first impossible token is the first one no continuation accepts.

* `definition = "function" name "(" [name {"," name}] ")" block`
* `block = "{" {statement} "}"`
* `statement = name "=" expression ";" | "if" "(" expression ")" block ["else" block]`
  `| "while" "(" expression ")" block | "return" expression ";"`
-/

set_option autoImplicit false

namespace Dataflow

/-- A token with its line and its byte offsets. -/
structure Located where
  token : Token
  line : Nat
  start : Nat
  stop : Nat
deriving DecidableEq

/-- What has been read of the head of a definition. -/
structure Signature where
  line : Nat
  start : Nat
  name : String
  parameters : List String
deriving DecidableEq

/-- A definition with the byte offsets of its text. -/
structure Definition where
  line : Nat
  start : Nat
  stop : Nat
  name : String
  parameters : List String
  body : List Stmt
deriving DecidableEq

/-- The open blocks, innermost first, each with the statements read so far. -/
inductive Nest where
  | function (statements : List Stmt)
  | thenBranch (line : Nat) (condition : Expr) (statements : List Stmt) (outer : Nest)
  | elseBranch (line : Nat) (condition : Expr) (thenBody statements : List Stmt) (outer : Nest)
  | loop (line : Nat) (condition : Expr) (statements : List Stmt) (outer : Nest)

/-- One more statement in the innermost block. -/
def Nest.push (statement : Stmt) : Nest → Nest
  | function statements => function (statements ++ [statement])
  | thenBranch line condition statements outer =>
    thenBranch line condition (statements ++ [statement]) outer
  | elseBranch line condition thenBody statements outer =>
    elseBranch line condition thenBody (statements ++ [statement]) outer
  | loop line condition statements outer => loop line condition (statements ++ [statement]) outer

/-- A statement whose block is about to open. -/
inductive Opener where
  | thenBranch (line : Nat) (condition : Expr)
  | elseBranch (line : Nat) (condition : Expr) (thenBody : List Stmt)
  | loop (line : Nat) (condition : Expr)

/-- The nest after the opening brace. -/
def Opener.enter (outer : Nest) : Opener → Nest
  | thenBranch line condition => .thenBranch line condition [] outer
  | elseBranch line condition thenBody => .elseBranch line condition thenBody [] outer
  | loop line condition => .loop line condition [] outer

/-- What the expression in progress is for. -/
inductive Purpose where
  | assign (line : Nat) (target : String)
  | ret (line : Nat)
  | branch (line : Nat)
  | loop (line : Nat)

/-- Where an operand is due. -/
inductive OperandPlace where
  /-- At the start of an expression. -/
  | start
  /-- After the opening parenthesis of an argument list. -/
  | firstArgument
  /-- After a prefix or binary operator. -/
  | afterOperator
deriving DecidableEq

/-- The place inside the innermost block. -/
inductive Spot where
  /-- A statement may start, or the block may end. -/
  | statement
  /-- The same right after the first body of a branch, where its second body may follow. -/
  | afterThen (line : Nat) (condition : Expr) (thenBody : List Stmt)
  /-- After the name that starts an assignment. -/
  | target (line : Nat) (name : String)
  /-- After the word that starts a branch or a loop. -/
  | guard (purpose : Purpose)
  /-- Before the brace of a nested block. -/
  | opening (opener : Opener)
  /-- Before an operand. -/
  | operand (place : OperandPlace) (frames : List Frame) (purpose : Purpose)
  /-- After a name in an expression: a variable, or a call if an argument list follows. -/
  | name (name : String) (frames : List Frame) (purpose : Purpose)
  /-- After any other operand. -/
  | value (operand : Expr) (frames : List Frame) (purpose : Purpose)

/-- Where a token inside a body leads. -/
inductive Move where
  /-- Still inside the body. -/
  | stay (nest : Nest) (spot : Spot)
  /-- The body is complete. -/
  | leave (body : List Stmt)

/-- The closing brace of the innermost block. -/
def Nest.close : Nest → Move
  | function statements => .leave statements
  | thenBranch line condition statements outer => .stay outer (.afterThen line condition statements)
  | elseBranch line condition thenBody statements outer =>
    .stay (outer.push (.ifElse line condition thenBody statements)) .statement
  | loop line condition statements outer =>
    .stay (outer.push (.loop line condition statements)) .statement

namespace Spot

/-- The spot after a complete operand. -/
def complete (operand : Expr) (frames : List Frame) (purpose : Purpose) : Spot :=
  let taken := Frame.absorb operand frames
  value taken.1 taken.2 purpose

/-- A token where a statement may start. -/
def begin? (nest : Nest) (t : Located) : Option Move :=
  match t.token with
  | .identifier word => some (.stay nest (target t.line word))
  | .keyword .ifWord => some (.stay nest (guard (.branch t.line)))
  | .keyword .whileWord => some (.stay nest (guard (.loop t.line)))
  | .keyword .returnWord => some (.stay nest (operand .start [] (.ret t.line)))
  | .symbol .rightBrace => some nest.close
  | _ => none

/-- A token where an operand is due. -/
def operand? (place : OperandPlace) (frames : List Frame) (purpose : Purpose) (t : Located) :
    Option Spot :=
  match t.token with
  | .int constant => some (complete (.int constant) frames purpose)
  | .keyword .trueWord => some (complete (.bool true) frames purpose)
  | .keyword .falseWord => some (complete (.bool false) frames purpose)
  | .identifier word => some (name word frames purpose)
  | .symbol .minus => some (operand .afterOperator (.unary .minus :: frames) purpose)
  | .symbol .bang => some (operand .afterOperator (.unary .bang :: frames) purpose)
  | .symbol .leftParen => some (operand .start (.group :: frames) purpose)
  | .symbol .rightParen =>
    match place, frames with
    | .firstArgument, .call callee arguments :: rest =>
      some (complete (.call callee arguments) rest purpose)
    | _, _ => none
  | _ => none

/-- The token after a whole expression that was read for `purpose`. -/
def finish? (nest : Nest) (whole : Expr) (purpose : Purpose) (t : Located) : Option Move :=
  match purpose, t.token with
  | .assign line word, .symbol .semicolon =>
    some (.stay (nest.push (.assign line word whole)) statement)
  | .ret line, .symbol .semicolon => some (.stay (nest.push (.ret line whole)) statement)
  | .branch line, .symbol .rightParen => some (.stay nest (opening (.thenBranch line whole)))
  | .loop line, .symbol .rightParen => some (.stay nest (opening (.loop line whole)))
  | _, _ => none

/-- The token that ends an expression inside its innermost delimiter. -/
def close? (nest : Nest) (whole : Expr) (frames : List Frame) (purpose : Purpose) (t : Located) :
    Option Move :=
  match frames with
  | [] => finish? nest whole purpose t
  | .group :: rest =>
    match t.token with
    | .symbol .rightParen => some (.stay nest (complete whole rest purpose))
    | _ => none
  | .call callee arguments :: rest =>
    match t.token with
    | .symbol .comma =>
      some (.stay nest (operand .start (.call callee (arguments ++ [whole]) :: rest) purpose))
    | .symbol .rightParen =>
      some (.stay nest (complete (.call callee (arguments ++ [whole])) rest purpose))
    | _ => none
  | _ => none

/-- A token after a complete operand. -/
def operator? (nest : Nest) (left : Expr) (frames : List Frame) (purpose : Purpose) (t : Located) :
    Option Move :=
  match BinaryOp.ofToken? t.token with
  | some op =>
    let joined := Frame.reduce op.precedence left frames
    some (.stay nest (operand .afterOperator (.binary joined.1 op :: joined.2) purpose))
  | none =>
    let joined := Frame.reduce 0 left frames
    close? nest joined.1 joined.2 purpose t

/-- Reads one token inside a body. -/
def next? (nest : Nest) (spot : Spot) (t : Located) : Option Move :=
  match spot with
  | statement => begin? nest t
  | afterThen line condition thenBody =>
    match t.token with
    | .keyword .elseWord => some (.stay nest (opening (.elseBranch line condition thenBody)))
    | _ => begin? (nest.push (.ifElse line condition thenBody [])) t
  | target line word =>
    match t.token with
    | .symbol .assign => some (.stay nest (operand .start [] (.assign line word)))
    | _ => none
  | guard purpose =>
    match t.token with
    | .symbol .leftParen => some (.stay nest (operand .start [] purpose))
    | _ => none
  | opening opener =>
    match t.token with
    | .symbol .leftBrace => some (.stay (opener.enter nest) statement)
    | _ => none
  | operand place frames purpose => (operand? place frames purpose t).map (.stay nest ·)
  | name word frames purpose =>
    match t.token with
    | .symbol .leftParen => some (.stay nest (operand .firstArgument (.call word [] :: frames) purpose))
    | _ =>
      let taken := Frame.absorb (.var word) frames
      operator? nest taken.1 taken.2 purpose t
  | value left frames purpose => operator? nest left frames purpose t

end Spot

/-- What has been read of the definition in progress. -/
inductive Phase where
  /-- Between definitions. -/
  | between
  /-- After the word that starts a definition. -/
  | functionWord (line start : Nat)
  /-- After the name. -/
  | functionName (signature : Signature)
  /-- After the parenthesis that opens the parameters. -/
  | parametersOpen (signature : Signature)
  /-- After a parameter. -/
  | parameter (signature : Signature)
  /-- After a comma between parameters. -/
  | parameterComma (signature : Signature)
  /-- After the parenthesis that closes the parameters. -/
  | parametersClosed (signature : Signature)
  /-- Inside the body. -/
  | body (signature : Signature) (nest : Nest) (spot : Spot)

/-- One more parameter. -/
def Signature.push (signature : Signature) (parameter : String) : Signature :=
  { signature with parameters := signature.parameters ++ [parameter] }

/-- The definition with a given head, body and end. -/
def Signature.complete (signature : Signature) (body : List Stmt) (stop : Nat) : Definition :=
  ⟨signature.line, signature.start, stop, signature.name, signature.parameters, body⟩

/-- The definitions read so far and the phase of the next one. -/
structure Reading where
  done : List Definition
  phase : Phase

namespace Reading

/-- Nothing has been read. -/
def initial : Reading := ⟨[], .between⟩

/-- The reading with the same complete definitions in another phase. -/
def goto (reading : Reading) (phase : Phase) : Reading := { reading with phase := phase }

/-- Reads one token. -/
def next? (reading : Reading) (t : Located) : Option Reading :=
  match reading.phase, t.token with
  | .between, .keyword .function => some (reading.goto (.functionWord t.line t.start))
  | .functionWord line start, .identifier name =>
    some (reading.goto (.functionName ⟨line, start, name, []⟩))
  | .functionName signature, .symbol .leftParen =>
    some (reading.goto (.parametersOpen signature))
  | .parametersOpen signature, .identifier name =>
    some (reading.goto (.parameter (signature.push name)))
  | .parametersOpen signature, .symbol .rightParen =>
    some (reading.goto (.parametersClosed signature))
  | .parameter signature, .symbol .comma => some (reading.goto (.parameterComma signature))
  | .parameter signature, .symbol .rightParen =>
    some (reading.goto (.parametersClosed signature))
  | .parameterComma signature, .identifier name =>
    some (reading.goto (.parameter (signature.push name)))
  | .parametersClosed signature, .symbol .leftBrace =>
    some (reading.goto (.body signature (.function []) .statement))
  | .body signature nest spot, _ =>
    (spot.next? nest t).map fun
      | .stay nest spot => reading.goto (.body signature nest spot)
      | .leave body => ⟨reading.done ++ [signature.complete body t.stop], .between⟩
  | _, _ => none

/-- Where reading stopped short: the reading so far and the impossible token, if one is left. -/
structure Stuck where
  reading : Reading
  found : Option Located

/-- Reads tokens one after the other. -/
def run : Reading → List Located → Except Stuck Reading
  | reading, [] => .ok reading
  | reading, t :: rest =>
    match reading.next? t with
    | some after => run after rest
    | none => .error ⟨reading, some t⟩

/-- The definitions, when none is in progress. -/
def finish (reading : Reading) : Except Stuck (List Definition) :=
  match reading.phase with
  | .between => .ok reading.done
  | _ => .error ⟨reading, none⟩

end Reading

/-- The definitions that a list of tokens spells. -/
def readDefinitions (tokens : List Located) : Except Reading.Stuck (List Definition) :=
  match Reading.initial.run tokens with
  | .ok reading => reading.finish
  | .error stuck => .error stuck

end Dataflow
