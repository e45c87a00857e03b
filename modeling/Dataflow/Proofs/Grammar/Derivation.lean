import Dataflow.Grammar.Phase

/-!
# The grammar by rules

Which lists of tokens are programs, said by rules and not by a machine:

* `program = {function}`
* `function = "function" name "(" [name {"," name}] ")" block`
* `block = "{" {statement} "}"`
* `statement = name "=" expression ";" | "if" "(" expression ")" block ["else" block]`
  `| "while" "(" expression ")" block | "return" expression ";"`
* An expression of level `n < 6` is `operand {operator operand}` with the operators of the level and
  operands of the next one, grouped from the left. Level 6 has the prefix operators, and level 7
  literals, names, calls and parentheses.

A derivation relates tokens to a tree that keeps every rule it used: parentheses and prefix operators
are nodes, and a branch without a second body is not one with an empty second body. The definitions that
a tree stands for are computed from it (`ExprTree.value`, `StmtTree.value`, `FunctionTree.value`).
-/

set_option autoImplicit false

namespace Dataflow.Grammar

/-! ## Trees -/

/-- The derivation of an expression. -/
inductive ExprTree where
  | int (constant : Int64)
  | bool (constant : Bool)
  | name (word : String)
  | call (callee : String) (arguments : List ExprTree)
  | group (inner : ExprTree)
  | unary (op : UnaryOp) (operand : ExprTree)
  | binary (left : ExprTree) (op : BinaryOp) (right : ExprTree)

/-- Minus in front of an expression: an integer constant is negated and anything else is subtracted
from zero. The least word has no negation among the words. -/
def minus : Expr → Expr
  | .int constant =>
    if constant = Int64.minValue then .arith (.int 0) .sub (.int constant) else .int (-constant)
  | operand => .arith (.int 0) .sub operand

mutual

/-- The expression a tree stands for. -/
def ExprTree.value : ExprTree → Expr
  | .int constant => .int constant
  | .bool constant => .bool constant
  | .name word => .var word
  | .call callee arguments => .call callee (values arguments)
  | .group inner => inner.value
  | .unary .minus operand => minus operand.value
  | .unary .bang operand => .not operand.value
  | .binary left op right => op.apply left.value right.value

/-- The expressions a list of trees stands for. -/
def ExprTree.values : List ExprTree → List Expr
  | [] => []
  | tree :: rest => tree.value :: values rest

end

/-- The derivation of a statement, with the line of its first token. -/
inductive StmtTree where
  | assign (line : Nat) (target : String) (value : ExprTree)
  | ifThen (line : Nat) (condition : ExprTree) (body : List StmtTree)
  | ifElse (line : Nat) (condition : ExprTree) (thenBody elseBody : List StmtTree)
  | loop (line : Nat) (condition : ExprTree) (body : List StmtTree)
  | ret (line : Nat) (value : ExprTree)

mutual

/-- The statement a tree stands for. -/
def StmtTree.value : StmtTree → Stmt
  | .assign line target value => .assign line target value.value
  | .ifThen line condition body => .ifElse line condition.value (values body) []
  | .ifElse line condition thenBody elseBody =>
    .ifElse line condition.value (values thenBody) (values elseBody)
  | .loop line condition body => .loop line condition.value (values body)
  | .ret line value => .ret line value.value

/-- The statements a list of trees stands for. -/
def StmtTree.values : List StmtTree → List Stmt
  | [] => []
  | tree :: rest => tree.value :: values rest

end

/-- The derivation of a function, with the line and the byte offsets of its tokens. -/
structure FunctionTree where
  line : Nat
  start : Nat
  stop : Nat
  name : String
  parameters : List String
  body : List StmtTree

/-- The definition a tree stands for. -/
def FunctionTree.value (tree : FunctionTree) : Definition :=
  ⟨tree.line, tree.start, tree.stop, tree.name, tree.parameters, StmtTree.values tree.body⟩

/-! ## Expressions -/

/-- The binary operators of each level with their tokens, loosest level first. -/
def operators : Nat → List (Token × BinaryOp)
  | 0 => [(.keyword .orWord, .logic .or)]
  | 1 => [(.keyword .andWord, .logic .and)]
  | 2 => [(.symbol .equalEqual, .equality .eq), (.symbol .notEqual, .equality .ne)]
  | 3 => [(.symbol .less, .compare .lt), (.symbol .greater, .compare .gt),
      (.symbol .lessEqual, .compare .le), (.symbol .greaterEqual, .compare .ge)]
  | 4 => [(.symbol .plus, .arith .add), (.symbol .minus, .arith .sub)]
  | 5 => [(.symbol .star, .arith .mul), (.symbol .slash, .arith .div)]
  | _ => []

/-- The prefix operators with their tokens. -/
def prefixes : List (Token × UnaryOp) := [(.symbol .minus, .minus), (.symbol .bang, .bang)]

mutual

/-- The tokens are an expression of a level. -/
inductive DerivesExpr : Nat → List Located → ExprTree → Prop
  | int {t : Located} {constant : Int64} : t.token = .int constant →
      DerivesExpr 7 [t] (.int constant)
  | yes {t : Located} : t.token = .keyword .trueWord → DerivesExpr 7 [t] (.bool true)
  | no {t : Located} : t.token = .keyword .falseWord → DerivesExpr 7 [t] (.bool false)
  | name {t : Located} {word : String} : t.token = .identifier word →
      DerivesExpr 7 [t] (.name word)
  | call {t opening closing : Located} {word : String} {ts : List Located}
      {arguments : List ExprTree} : t.token = .identifier word →
      opening.token = .symbol .leftParen → DerivesArguments ts arguments →
      closing.token = .symbol .rightParen →
      DerivesExpr 7 (t :: opening :: (ts ++ [closing])) (.call word arguments)
  | group {opening closing : Located} {ts : List Located} {inner : ExprTree} :
      opening.token = .symbol .leftParen → DerivesExpr 0 ts inner →
      closing.token = .symbol .rightParen →
      DerivesExpr 7 (opening :: (ts ++ [closing])) (.group inner)
  | atom {ts : List Located} {tree : ExprTree} : DerivesExpr 7 ts tree → DerivesExpr 6 ts tree
  | unary {t : Located} {op : UnaryOp} {ts : List Located} {operand : ExprTree} :
      (t.token, op) ∈ prefixes → DerivesExpr 6 ts operand →
      DerivesExpr 6 (t :: ts) (.unary op operand)
  -- Also an expression of the next level alone, when no operator follows.
  | chain {n : Nat} {ts us : List Located} {first tree : ExprTree} : n < 6 →
      DerivesExpr (n + 1) ts first → DerivesOperands n us first tree →
      DerivesExpr n (ts ++ us) tree

/-- The tokens are operators of a level, each followed by an operand of the next one; they turn the
tree of what stands before them into the tree of the whole. -/
inductive DerivesOperands : Nat → List Located → ExprTree → ExprTree → Prop
  | done {n : Nat} {tree : ExprTree} : DerivesOperands n [] tree tree
  | more {n : Nat} {t : Located} {op : BinaryOp} {ts us : List Located}
      {left right tree : ExprTree} : (t.token, op) ∈ operators n → DerivesExpr (n + 1) ts right →
      DerivesOperands n us (.binary left op right) tree →
      DerivesOperands n (t :: (ts ++ us)) left tree

/-- The tokens are the arguments of a call: none, or expressions with commas between them. -/
inductive DerivesArguments : List Located → List ExprTree → Prop
  | none : DerivesArguments [] []
  | some {ts us : List Located} {first : ExprTree} {rest : List ExprTree} :
      DerivesExpr 0 ts first → DerivesMoreArguments us rest →
      DerivesArguments (ts ++ us) (first :: rest)

/-- The tokens are commas, each followed by an expression. -/
inductive DerivesMoreArguments : List Located → List ExprTree → Prop
  | done : DerivesMoreArguments [] []
  | more {t : Located} {ts us : List Located} {first : ExprTree} {rest : List ExprTree} :
      t.token = .symbol .comma → DerivesExpr 0 ts first → DerivesMoreArguments us rest →
      DerivesMoreArguments (t :: (ts ++ us)) (first :: rest)

end

/-! ## Statements -/

/-- The tokens are an expression in parentheses, as after `if` and `while`. -/
inductive DerivesGuard : List Located → ExprTree → Prop
  | guard {opening closing : Located} {ts : List Located} {condition : ExprTree} :
      opening.token = .symbol .leftParen → DerivesExpr 0 ts condition →
      closing.token = .symbol .rightParen →
      DerivesGuard (opening :: (ts ++ [closing])) condition

mutual

/-- The tokens are a statement. -/
inductive DerivesStmt : List Located → StmtTree → Prop
  | assign {t equals stop : Located} {word : String} {ts : List Located} {value : ExprTree} :
      t.token = .identifier word → equals.token = .symbol .assign → DerivesExpr 0 ts value →
      stop.token = .symbol .semicolon →
      DerivesStmt (t :: equals :: (ts ++ [stop])) (.assign t.line word value)
  | ifThen {t : Located} {gs bs : List Located} {condition : ExprTree} {body : List StmtTree} :
      t.token = .keyword .ifWord → DerivesGuard gs condition → DerivesBlock bs body →
      DerivesStmt (t :: (gs ++ bs)) (.ifThen t.line condition body)
  | ifElse {t otherwise : Located} {gs bs cs : List Located} {condition : ExprTree}
      {thenBody elseBody : List StmtTree} : t.token = .keyword .ifWord →
      DerivesGuard gs condition → DerivesBlock bs thenBody →
      otherwise.token = .keyword .elseWord → DerivesBlock cs elseBody →
      DerivesStmt (t :: (gs ++ (bs ++ otherwise :: cs))) (.ifElse t.line condition thenBody elseBody)
  | loop {t : Located} {gs bs : List Located} {condition : ExprTree} {body : List StmtTree} :
      t.token = .keyword .whileWord → DerivesGuard gs condition → DerivesBlock bs body →
      DerivesStmt (t :: (gs ++ bs)) (.loop t.line condition body)
  | ret {t stop : Located} {ts : List Located} {value : ExprTree} :
      t.token = .keyword .returnWord → DerivesExpr 0 ts value →
      stop.token = .symbol .semicolon →
      DerivesStmt (t :: (ts ++ [stop])) (.ret t.line value)

/-- The tokens are statements in braces. -/
inductive DerivesBlock : List Located → List StmtTree → Prop
  | block {opening closing : Located} {ts : List Located} {body : List StmtTree} :
      opening.token = .symbol .leftBrace → DerivesStmts ts body →
      closing.token = .symbol .rightBrace → DerivesBlock (opening :: (ts ++ [closing])) body

/-- The tokens are statements one after the other. -/
inductive DerivesStmts : List Located → List StmtTree → Prop
  | done : DerivesStmts [] []
  | more {ts us : List Located} {first : StmtTree} {rest : List StmtTree} :
      DerivesStmt ts first → DerivesStmts us rest → DerivesStmts (ts ++ us) (first :: rest)

end

/-! ## Programs -/

/-- The tokens are commas, each followed by a name. -/
inductive DerivesMoreParameters : List Located → List String → Prop
  | done : DerivesMoreParameters [] []
  | more {comma t : Located} {ts : List Located} {word : String} {rest : List String} :
      comma.token = .symbol .comma → t.token = .identifier word →
      DerivesMoreParameters ts rest → DerivesMoreParameters (comma :: t :: ts) (word :: rest)

/-- The tokens are parameters: none, or names with commas between them. -/
inductive DerivesParameters : List Located → List String → Prop
  | none : DerivesParameters [] []
  | some {t : Located} {ts : List Located} {word : String} {rest : List String} :
      t.token = .identifier word → DerivesMoreParameters ts rest →
      DerivesParameters (t :: ts) (word :: rest)

/-- The tokens are a function. -/
inductive DerivesFunction : List Located → FunctionTree → Prop
  | function {t called opening closing entering leaving : Located} {word : String}
      {ps ts : List Located} {parameters : List String} {body : List StmtTree} :
      t.token = .keyword .function → called.token = .identifier word →
      opening.token = .symbol .leftParen → DerivesParameters ps parameters →
      closing.token = .symbol .rightParen → entering.token = .symbol .leftBrace →
      DerivesStmts ts body → leaving.token = .symbol .rightBrace →
      DerivesFunction
        (t :: called :: opening :: (ps ++ closing :: entering :: (ts ++ [leaving])))
        ⟨t.line, t.start, leaving.stop, word, parameters, body⟩

/-- The tokens are functions one after the other. -/
inductive DerivesProgram : List Located → List FunctionTree → Prop
  | done : DerivesProgram [] []
  | more {ts us : List Located} {first : FunctionTree} {rest : List FunctionTree} :
      DerivesFunction ts first → DerivesProgram us rest → DerivesProgram (ts ++ us) (first :: rest)

end Dataflow.Grammar
