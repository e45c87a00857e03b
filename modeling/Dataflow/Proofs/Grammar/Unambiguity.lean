import Dataflow.Program
import Dataflow.Proofs.Grammar.Soundness

/-!
# Every program has one derivation

Two derivations that start at the same token and each stop where the grammar must stop are the same
(`DerivesExpr.unique`, `DerivesStmt.unique`): a name goes on exactly before an opening parenthesis, the
operands of a level go on exactly before an operator of the level, and a branch has a second body
exactly before `else`.
-/

set_option autoImplicit false

namespace Dataflow.Grammar

/-! ## Where an expression stops -/

/-- What follows an expression of a level does not continue it: no argument list, and no operator of the
level or of a tighter one. -/
def Ends (n : Nat) (rest : List Located) : Prop :=
  ∀ t, rest.head? = some t → t.token ≠ .symbol .leftParen ∧
    ∀ op, BinaryOp.ofToken? t.token = some op → op.precedence < n

theorem Ends.mono {n m : Nat} {rest : List Located} (ends : Ends n rest) (le : n ≤ m) : Ends m rest := by
  intro t head
  obtain ⟨plain, loose⟩ := ends t head
  exact ⟨plain, fun op known => Nat.lt_of_lt_of_le (loose op known) le⟩

/-- A token that is neither an operator nor an opening parenthesis ends every expression. -/
theorem ends_of_closing {t : Located} (plain : t.token ≠ .symbol .leftParen)
    (closes : BinaryOp.ofToken? t.token = none) (n : Nat) (rest : List Located) :
    Ends n (t :: rest) := by
  intro u head
  cases head
  exact ⟨plain, fun op known => by simp [closes] at known⟩

theorem ends_of_rightParen {t : Located} (closed : t.token = .symbol .rightParen) (n : Nat)
    (rest : List Located) : Ends n (t :: rest) :=
  ends_of_closing (by simp [closed]) (congrArg BinaryOp.ofToken? closed) n rest

/-- After an operand of a level comes an operator of the level or the end. -/
theorem DerivesOperands.ends {n : Nat} {us rest : List Located} {left tree : ExprTree}
    (operands : DerivesOperands n us left tree) (ends : Ends n rest) : Ends (n + 1) (us ++ rest) := by
  cases operands with
  | done => exact ends.mono (Nat.le_succ n)
  | @more _ t op _ _ _ _ _ listed _ _ =>
    obtain ⟨known, level⟩ := mem_operators_iff.mp listed
    intro u head
    cases head
    refine ⟨(follows_operator listed).plain, fun op' known' => ?_⟩
    cases known.symm.trans known'
    exact Nat.lt_succ_of_le (Nat.le_of_eq level)

/-- After an argument comes a comma or the closing parenthesis. -/
theorem DerivesMoreArguments.ends {us rest : List Located} {arguments : List ExprTree} {closing : Located}
    (more : DerivesMoreArguments us arguments) (closed : closing.token = .symbol .rightParen) :
    Ends 0 (us ++ closing :: rest) := by
  cases more with
  | done => exact ends_of_rightParen closed 0 rest
  | more comma _ _ =>
    exact ends_of_closing (by simp [comma]) (congrArg BinaryOp.ofToken? comma) 0 _

/-! ## How an expression starts -/

/-- Tokens that start literals, names, calls and parentheses. -/
def StartsAtom (t : Located) : Prop :=
  (∃ constant, t.token = .int constant) ∨ t.token = .keyword .trueWord ∨
    t.token = .keyword .falseWord ∨ (∃ word, t.token = .identifier word) ∨
    t.token = .symbol .leftParen

theorem DerivesExpr.startsAtom {ts : List Located} {tree : ExprTree} (derives : DerivesExpr 7 ts tree) :
    ∃ t us, ts = t :: us ∧ StartsAtom t := by
  cases derives with
  | int token => exact ⟨_, _, rfl, .inl ⟨_, token⟩⟩
  | yes token => exact ⟨_, _, rfl, .inr (.inl token)⟩
  | no token => exact ⟨_, _, rfl, .inr (.inr (.inl token))⟩
  | name token => exact ⟨_, _, rfl, .inr (.inr (.inr (.inl ⟨_, token⟩)))⟩
  | call token _ _ _ => exact ⟨_, _, rfl, .inr (.inr (.inr (.inl ⟨_, token⟩)))⟩
  | group opened _ _ => exact ⟨_, _, rfl, .inr (.inr (.inr (.inr opened)))⟩
  | chain binary _ _ => exact absurd binary (by decide)

theorem StartsAtom.not_prefix {t : Located} (starts : StartsAtom t) {op : UnaryOp} :
    (t.token, op) ∉ prefixes := by
  rcases starts with ⟨_, token⟩ | token | token | ⟨_, token⟩ | token <;> simp [token, prefixes]

theorem prefix_unique {token : Token} {op op' : UnaryOp} (listed : (token, op) ∈ prefixes)
    (listed' : (token, op') ∈ prefixes) : op = op' := by
  simp only [prefixes, List.mem_cons, List.not_mem_nil, or_false, Prod.mk.injEq] at listed listed'
  rcases listed with ⟨rfl, rfl⟩ | ⟨rfl, rfl⟩ <;> rcases listed' with ⟨same, rfl⟩ | ⟨same, rfl⟩ <;>
    first | rfl | cases same

/-- No expression starts with a closing parenthesis. -/
theorem DerivesExpr.start_ne : ∀ {n : Nat} {ts : List Located} {tree : ExprTree}, DerivesExpr n ts tree →
    ∃ t us, ts = t :: us ∧ t.token ≠ .symbol .rightParen
  | _, _, _, .int token => ⟨_, _, rfl, by simp [token]⟩
  | _, _, _, .yes token => ⟨_, _, rfl, by simp [token]⟩
  | _, _, _, .no token => ⟨_, _, rfl, by simp [token]⟩
  | _, _, _, .name token => ⟨_, _, rfl, by simp [token]⟩
  | _, _, _, .call token _ _ _ => ⟨_, _, rfl, by simp [token]⟩
  | _, _, _, .group opened _ _ => ⟨_, _, rfl, by simp [opened]⟩
  | _, _, _, .atom derives => derives.start_ne
  | _, _, _, .unary listed _ => ⟨_, _, rfl, fun closed => by simp [closed, prefixes] at listed⟩
  | _, _, _, .chain _ first _ => by
    obtain ⟨t, us, rfl, other⟩ := first.start_ne
    exact ⟨t, _, rfl, other⟩

/-! ## Expressions -/

mutual

/-- **Two expressions of a level that start at the same token and stop where they must are the same.** -/
theorem DerivesExpr.unique : ∀ {n : Nat} {ts : List Located} {tree : ExprTree}, DerivesExpr n ts tree →
    ∀ {ts' rest rest' : List Located} {tree' : ExprTree}, DerivesExpr n ts' tree' →
    ts ++ rest = ts' ++ rest' → Ends n rest → Ends n rest' → tree = tree' ∧ rest = rest'
  | _, _, _, .int token, _, _, _, _, derives', same, _, _ => by
    cases derives' with
    | int token' =>
      cases same
      cases token.symm.trans token'
      exact ⟨rfl, rfl⟩
    | yes token' | no token' | name token' | call token' _ _ _ | group token' _ _ =>
      cases same
      cases token.symm.trans token'
    | chain binary _ _ => exact absurd binary (by decide)
  | _, _, _, .yes token, _, _, _, _, derives', same, _, _ => by
    cases derives' with
    | yes token' =>
      cases same
      exact ⟨rfl, rfl⟩
    | int token' | no token' | name token' | call token' _ _ _ | group token' _ _ =>
      cases same
      cases token.symm.trans token'
    | chain binary _ _ => exact absurd binary (by decide)
  | _, _, _, .no token, _, _, _, _, derives', same, _, _ => by
    cases derives' with
    | no token' =>
      cases same
      exact ⟨rfl, rfl⟩
    | int token' | yes token' | name token' | call token' _ _ _ | group token' _ _ =>
      cases same
      cases token.symm.trans token'
    | chain binary _ _ => exact absurd binary (by decide)
  | _, _, _, .name token, _, _, _, _, derives', same, ends, _ => by
    cases derives' with
    | name token' =>
      cases same
      cases token.symm.trans token'
      exact ⟨rfl, rfl⟩
    | call _ opened _ _ =>
      -- The name would stop before an argument list.
      cases same
      exact absurd opened (ends _ rfl).1
    | int token' | yes token' | no token' | group token' _ _ =>
      cases same
      cases token.symm.trans token'
    | chain binary _ _ => exact absurd binary (by decide)
  | _, _, _, .call token opened arguments closed, _, _, _, _, derives', same, _, ends' => by
    cases derives' with
    | call token' opened' arguments' closed' =>
      simp only [List.cons_append, List.append_assoc, List.nil_append,
        List.cons.injEq] at same
      obtain ⟨rfl, rfl, same⟩ := same
      obtain ⟨rfl, stop⟩ := arguments.unique arguments' closed closed' same
      cases stop
      cases token.symm.trans token'
      exact ⟨rfl, rfl⟩
    | name _ =>
      cases same
      exact absurd opened (ends' _ rfl).1
    | int token' | yes token' | no token' | group token' _ _ =>
      obtain ⟨rfl, -⟩ := List.cons.inj same
      cases token.symm.trans token'
    | chain binary _ _ => exact absurd binary (by decide)
  | _, _, _, .group opened derives closed, _, _, _, _, derives', same, _, _ => by
    cases derives' with
    | group opened' derives' closed' =>
      simp only [List.cons_append, List.append_assoc, List.nil_append,
        List.cons.injEq] at same
      obtain ⟨rfl, same⟩ := same
      obtain ⟨rfl, stop⟩ := derives.unique derives' same (ends_of_rightParen closed 0 _)
        (ends_of_rightParen closed' 0 _)
      cases stop
      exact ⟨rfl, rfl⟩
    | int token' | yes token' | no token' | name token' | call token' _ _ _ =>
      obtain ⟨rfl, -⟩ := List.cons.inj same
      cases opened.symm.trans token'
    | chain binary _ _ => exact absurd binary (by decide)
  | _, _, _, .atom derives, _, _, _, _, derives', same, ends, ends' => by
    cases derives' with
    | atom derives' => exact derives.unique derives' same (ends.mono (by decide)) (ends'.mono (by decide))
    | unary listed _ =>
      obtain ⟨t, us, rfl, starts⟩ := derives.startsAtom
      obtain ⟨rfl, -⟩ := List.cons.inj same
      exact absurd listed starts.not_prefix
    | chain binary _ _ => exact absurd binary (by decide)
  | _, _, _, .unary listed derives, _, _, _, _, derives', same, ends, ends' => by
    cases derives' with
    | atom derives' =>
      obtain ⟨t, us, rfl, starts⟩ := derives'.startsAtom
      obtain ⟨rfl, -⟩ := List.cons.inj same
      exact absurd listed starts.not_prefix
    | unary listed' derives' =>
      simp only [List.cons_append, List.cons.injEq] at same
      obtain ⟨rfl, same⟩ := same
      obtain ⟨rfl, rfl⟩ := derives.unique derives' same ends ends'
      exact ⟨by rw [prefix_unique listed listed'], rfl⟩
    | chain binary _ _ => exact absurd binary (by decide)
  | _, _, _, .chain binary first operands, _, _, _, _, derives', same, ends, ends' => by
    cases derives' with
    | chain _ first' operands' =>
      -- Both first operands stop before an operator of this level, which is looser than theirs.
      rw [List.append_assoc, List.append_assoc] at same
      obtain ⟨rfl, same⟩ := first.unique first' same (operands.ends ends) (operands'.ends ends')
      exact operands.unique operands' same ends ends'
    | int _ | yes _ | no _ | name _ | call _ _ _ _ | group _ _ _ | atom _ | unary _ _ =>
      exact absurd binary (by decide)
termination_by structural _ _ _ derives => derives

/-- The same for the operands after the first. -/
theorem DerivesOperands.unique : ∀ {n : Nat} {us : List Located} {left tree : ExprTree},
    DerivesOperands n us left tree →
    ∀ {us' rest rest' : List Located} {tree' : ExprTree}, DerivesOperands n us' left tree' →
    us ++ rest = us' ++ rest' → Ends n rest → Ends n rest' → tree = tree' ∧ rest = rest'
  | _, _, _, _, .done, _, _, _, _, operands', same, ends, _ => by
    cases operands' with
    | done => exact ⟨rfl, same⟩
    | more listed _ _ =>
      obtain ⟨known, level⟩ := mem_operators_iff.mp listed
      cases same
      exact absurd ((ends _ rfl).2 _ known) (by omega)
  | _, _, _, _, .more listed derives operands, _, _, _, _, operands', same, ends, ends' => by
    cases operands' with
    | done =>
      obtain ⟨known, level⟩ := mem_operators_iff.mp listed
      cases same
      exact absurd ((ends' _ rfl).2 _ known) (by omega)
    | more listed' derives' operands' =>
      simp only [List.cons_append, List.append_assoc, List.cons.injEq] at same
      obtain ⟨rfl, same⟩ := same
      cases (mem_operators_iff.mp listed).1.symm.trans (mem_operators_iff.mp listed').1
      obtain ⟨rfl, same⟩ := derives.unique derives' same (operands.ends ends) (operands'.ends ends')
      exact operands.unique operands' same ends ends'
termination_by structural _ _ _ _ operands => operands

/-- The same for the arguments of a call. -/
theorem DerivesArguments.unique : ∀ {ts : List Located} {arguments : List ExprTree},
    DerivesArguments ts arguments →
    ∀ {ts' rest rest' : List Located} {closing closing' : Located} {arguments' : List ExprTree},
    DerivesArguments ts' arguments' → closing.token = .symbol .rightParen →
    closing'.token = .symbol .rightParen → ts ++ closing :: rest = ts' ++ closing' :: rest' →
    arguments = arguments' ∧ closing :: rest = closing' :: rest'
  | _, _, .none, _, _, _, _, _, _, arguments', closed, _, same => by
    cases arguments' with
    | none => exact ⟨rfl, same⟩
    | some first _ =>
      obtain ⟨t, us, rfl, other⟩ := first.start_ne
      cases same
      exact absurd closed other
  | _, _, .some first more, _, _, _, _, _, _, arguments', closed, closed', same => by
    cases arguments' with
    | none =>
      obtain ⟨t, us, rfl, other⟩ := first.start_ne
      cases same
      exact absurd closed' other
    | some first' more' =>
      rw [List.append_assoc, List.append_assoc] at same
      obtain ⟨rfl, same⟩ := first.unique first' same (more.ends closed) (more'.ends closed')
      obtain ⟨rfl, same⟩ := more.unique more' closed closed' same
      exact ⟨rfl, same⟩
termination_by structural _ _ arguments => arguments

/-- The same for the arguments after the first. -/
theorem DerivesMoreArguments.unique : ∀ {us : List Located} {arguments : List ExprTree},
    DerivesMoreArguments us arguments →
    ∀ {us' rest rest' : List Located} {closing closing' : Located} {arguments' : List ExprTree},
    DerivesMoreArguments us' arguments' → closing.token = .symbol .rightParen →
    closing'.token = .symbol .rightParen → us ++ closing :: rest = us' ++ closing' :: rest' →
    arguments = arguments' ∧ closing :: rest = closing' :: rest'
  | _, _, .done, _, _, _, _, _, _, more', closed, _, same => by
    cases more' with
    | done => exact ⟨rfl, same⟩
    | more comma _ _ =>
      cases same
      cases closed.symm.trans comma
  | _, _, .more comma first more, _, _, _, _, _, _, more', closed, closed', same => by
    cases more' with
    | done =>
      cases same
      cases closed'.symm.trans comma
    | more _ first' more' =>
      simp only [List.cons_append, List.append_assoc, List.cons.injEq] at same
      obtain ⟨rfl, same⟩ := same
      obtain ⟨rfl, same⟩ := first.unique first' same (more.ends closed) (more'.ends closed')
      obtain ⟨rfl, same⟩ := more.unique more' closed closed' same
      exact ⟨rfl, same⟩
termination_by structural _ _ more => more

end

/-! ## Statements -/

/-- The same for a guard. -/
theorem DerivesGuard.unique {gs gs' rest rest' : List Located} {condition condition' : ExprTree}
    (guarded : DerivesGuard gs condition) (guarded' : DerivesGuard gs' condition')
    (same : gs ++ rest = gs' ++ rest') : condition = condition' ∧ rest = rest' := by
  obtain ⟨_, derives, closed⟩ := guarded
  obtain ⟨_, derives', closed'⟩ := guarded'
  simp only [List.cons_append, List.append_assoc, List.nil_append, List.cons.injEq] at same
  obtain ⟨-, same⟩ := same
  obtain ⟨rfl, stop⟩ := derives.unique derives' same (ends_of_rightParen closed 0 _)
    (ends_of_rightParen closed' 0 _)
  cases stop
  exact ⟨rfl, rfl⟩

/-- No second body follows. -/
def NoElse (rest : List Located) : Prop :=
  ∀ t, rest.head? = some t → t.token ≠ .keyword .elseWord

theorem DerivesStmt.noElse {ts rest : List Located} {tree : StmtTree} (derives : DerivesStmt ts tree) :
    NoElse (ts ++ rest) := by
  intro t head
  cases derives with
  | assign token | ifThen token | ifElse token | loop token | ret token =>
    cases head
    simp [token]

theorem DerivesStmts.noElse {ts rest : List Located} {body : List StmtTree}
    (derives : DerivesStmts ts body) (none : NoElse rest) : NoElse (ts ++ rest) := by
  cases derives with
  | done => exact none
  | more first _ =>
    rw [List.append_assoc]
    exact first.noElse

theorem noElse_of_rightBrace {t : Located} (closed : t.token = .symbol .rightBrace)
    (rest : List Located) : NoElse (t :: rest) := by
  intro u head
  cases head
  simp [closed]

/-- No statement starts with a closing brace. -/
theorem DerivesStmt.start_ne {ts : List Located} {tree : StmtTree} (derives : DerivesStmt ts tree) :
    ∃ t us, ts = t :: us ∧ t.token ≠ .symbol .rightBrace := by
  cases derives with
  | assign token | ifThen token | ifElse token | loop token | ret token =>
    exact ⟨_, _, rfl, by simp [token]⟩

/-- A whole expression and its semicolon. -/
theorem DerivesExpr.unique_semicolon {ts ts' rest rest' : List Located} {tree tree' : ExprTree}
    {stop stop' : Located} (derives : DerivesExpr 0 ts tree) (derives' : DerivesExpr 0 ts' tree')
    (stops : stop.token = .symbol .semicolon) (stops' : stop'.token = .symbol .semicolon)
    (same : ts ++ stop :: rest = ts' ++ stop' :: rest') : tree = tree' ∧ rest = rest' := by
  obtain ⟨rfl, same⟩ := derives.unique derives' same
    (ends_of_closing (by simp [stops]) (congrArg BinaryOp.ofToken? stops) 0 _)
    (ends_of_closing (by simp [stops']) (congrArg BinaryOp.ofToken? stops') 0 _)
  cases same
  exact ⟨rfl, rfl⟩

mutual

/-- **Two statements that start at the same token and are not followed by `else` are the same.** -/
theorem DerivesStmt.unique : ∀ {ts : List Located} {tree : StmtTree}, DerivesStmt ts tree →
    ∀ {ts' rest rest' : List Located} {tree' : StmtTree}, DerivesStmt ts' tree' →
    ts ++ rest = ts' ++ rest' → NoElse rest → NoElse rest' → tree = tree' ∧ rest = rest'
  | _, _, .assign token _ derives stops, _, _, _, _, derives', same, _, _ => by
    cases derives' with
    | assign token' _ derives' stops' =>
      simp only [List.cons_append, List.append_assoc, List.nil_append, List.cons.injEq] at same
      obtain ⟨rfl, -, same⟩ := same
      obtain ⟨rfl, rfl⟩ := derives.unique_semicolon derives' stops stops' same
      cases token.symm.trans token'
      exact ⟨rfl, rfl⟩
    | ifThen token' | ifElse token' | loop token' | ret token' =>
      obtain ⟨rfl, -⟩ := List.cons.inj same
      cases token.symm.trans token'
  | _, _, .ifThen token guarded block, _, _, _, _, derives', same, ends, _ => by
    cases derives' with
    | ifThen _ guarded' block' =>
      simp only [List.cons_append, List.append_assoc, List.cons.injEq] at same
      obtain ⟨rfl, same⟩ := same
      obtain ⟨rfl, same⟩ := guarded.unique guarded' same
      obtain ⟨rfl, rfl⟩ := block.unique block' same
      exact ⟨rfl, rfl⟩
    | ifElse _ guarded' block' alternative' _ =>
      simp only [List.cons_append, List.append_assoc, List.cons.injEq] at same
      obtain ⟨rfl, same⟩ := same
      obtain ⟨rfl, same⟩ := guarded.unique guarded' same
      obtain ⟨rfl, rfl⟩ := block.unique block' same
      -- The shorter branch would stop before `else`.
      exact absurd alternative' (ends _ rfl)
    | assign token' | loop token' | ret token' =>
      obtain ⟨rfl, -⟩ := List.cons.inj same
      cases token.symm.trans token'
  | _, _, .ifElse token guarded block alternative elseBlock, _, _, _, _, derives', same, _, ends' => by
    cases derives' with
    | ifThen _ guarded' block' =>
      simp only [List.cons_append, List.append_assoc, List.cons.injEq] at same
      obtain ⟨rfl, same⟩ := same
      obtain ⟨rfl, same⟩ := guarded.unique guarded' same
      obtain ⟨rfl, rfl⟩ := block.unique block' same
      exact absurd alternative (ends' _ rfl)
    | ifElse _ guarded' block' _ elseBlock' =>
      simp only [List.cons_append, List.append_assoc, List.cons.injEq] at same
      obtain ⟨rfl, same⟩ := same
      obtain ⟨rfl, same⟩ := guarded.unique guarded' same
      obtain ⟨rfl, same⟩ := block.unique block' same
      obtain ⟨rfl, rfl⟩ := elseBlock.unique elseBlock' (List.cons.inj same).2
      exact ⟨rfl, rfl⟩
    | assign token' | loop token' | ret token' =>
      obtain ⟨rfl, -⟩ := List.cons.inj same
      cases token.symm.trans token'
  | _, _, .loop token guarded block, _, _, _, _, derives', same, _, _ => by
    cases derives' with
    | loop _ guarded' block' =>
      simp only [List.cons_append, List.append_assoc, List.cons.injEq] at same
      obtain ⟨rfl, same⟩ := same
      obtain ⟨rfl, same⟩ := guarded.unique guarded' same
      obtain ⟨rfl, rfl⟩ := block.unique block' same
      exact ⟨rfl, rfl⟩
    | assign token' | ifThen token' | ifElse token' | ret token' =>
      obtain ⟨rfl, -⟩ := List.cons.inj same
      cases token.symm.trans token'
  | _, _, .ret token derives stops, _, _, _, _, derives', same, _, _ => by
    cases derives' with
    | ret _ derives' stops' =>
      simp only [List.cons_append, List.append_assoc, List.nil_append, List.cons.injEq] at same
      obtain ⟨rfl, same⟩ := same
      obtain ⟨rfl, rfl⟩ := derives.unique_semicolon derives' stops stops' same
      exact ⟨rfl, rfl⟩
    | assign token' | ifThen token' | ifElse token' | loop token' =>
      obtain ⟨rfl, -⟩ := List.cons.inj same
      cases token.symm.trans token'
termination_by structural _ _ derives => derives

/-- The same for a block. -/
theorem DerivesBlock.unique : ∀ {bs : List Located} {body : List StmtTree}, DerivesBlock bs body →
    ∀ {bs' rest rest' : List Located} {body' : List StmtTree}, DerivesBlock bs' body' →
    bs ++ rest = bs' ++ rest' → body = body' ∧ rest = rest'
  | _, _, .block _ derives closed, _, _, _, _, block', same => by
    obtain ⟨_, derives', closed'⟩ := block'
    simp only [List.cons_append, List.append_assoc, List.nil_append, List.cons.injEq] at same
    obtain ⟨-, same⟩ := same
    obtain ⟨rfl, stop⟩ := derives.unique derives' closed closed' same
    cases stop
    exact ⟨rfl, rfl⟩
termination_by structural _ _ block => block

/-- The same for the statements of a block. -/
theorem DerivesStmts.unique : ∀ {ts : List Located} {body : List StmtTree}, DerivesStmts ts body →
    ∀ {ts' rest rest' : List Located} {closing closing' : Located} {body' : List StmtTree},
    DerivesStmts ts' body' → closing.token = .symbol .rightBrace →
    closing'.token = .symbol .rightBrace → ts ++ closing :: rest = ts' ++ closing' :: rest' →
    body = body' ∧ closing :: rest = closing' :: rest'
  | _, _, .done, _, _, _, _, _, _, derives', closed, _, same => by
    cases derives' with
    | done => exact ⟨rfl, same⟩
    | more first' _ =>
      obtain ⟨t, us, rfl, other⟩ := first'.start_ne
      cases same
      exact absurd closed other
  | _, _, .more first more, _, _, _, _, _, _, derives', closed, closed', same => by
    cases derives' with
    | done =>
      obtain ⟨t, us, rfl, other⟩ := first.start_ne
      cases same
      exact absurd closed' other
    | more first' more' =>
      rw [List.append_assoc, List.append_assoc] at same
      obtain ⟨rfl, same⟩ := first.unique first' same
        (more.noElse (noElse_of_rightBrace closed _)) (more'.noElse (noElse_of_rightBrace closed' _))
      obtain ⟨rfl, same⟩ := more.unique more' closed closed' same
      exact ⟨rfl, same⟩
termination_by structural _ _ derives => derives

end

/-! ## Programs -/

/-- The same for the parameters after the first. -/
theorem DerivesMoreParameters.unique {ps ps' rest rest' : List Located}
    {parameters parameters' : List String} {closing closing' : Located}
    (more : DerivesMoreParameters ps parameters) (more' : DerivesMoreParameters ps' parameters')
    (closed : closing.token = .symbol .rightParen) (closed' : closing'.token = .symbol .rightParen)
    (same : ps ++ closing :: rest = ps' ++ closing' :: rest') :
    parameters = parameters' ∧ rest = rest' := by
  induction more generalizing ps' parameters' with
  | done =>
    cases more' with
    | done =>
      cases same
      exact ⟨rfl, rfl⟩
    | more comma _ _ =>
      cases same
      cases closed.symm.trans comma
  | more comma token _ ih =>
    cases more' with
    | done =>
      cases same
      cases closed'.symm.trans comma
    | more _ token' more' =>
      simp only [List.cons_append, List.cons.injEq] at same
      obtain ⟨-, rfl, same⟩ := same
      obtain ⟨rfl, rfl⟩ := ih more' same
      cases token.symm.trans token'
      exact ⟨rfl, rfl⟩

/-- The same for the parameters of a function. -/
theorem DerivesParameters.unique {ps ps' rest rest' : List Located}
    {parameters parameters' : List String} {closing closing' : Located}
    (derives : DerivesParameters ps parameters) (derives' : DerivesParameters ps' parameters')
    (closed : closing.token = .symbol .rightParen) (closed' : closing'.token = .symbol .rightParen)
    (same : ps ++ closing :: rest = ps' ++ closing' :: rest') :
    parameters = parameters' ∧ rest = rest' := by
  cases derives with
  | none =>
    cases derives' with
    | none =>
      cases same
      exact ⟨rfl, rfl⟩
    | some token _ =>
      cases same
      cases closed.symm.trans token
  | some token more =>
    cases derives' with
    | none =>
      cases same
      cases closed'.symm.trans token
    | some token' more' =>
      simp only [List.cons_append, List.cons.injEq] at same
      obtain ⟨rfl, same⟩ := same
      obtain ⟨rfl, rfl⟩ := more.unique more' closed closed' same
      cases token.symm.trans token'
      exact ⟨rfl, rfl⟩

/-- **Two functions that start at the same token are the same.** -/
theorem DerivesFunction.unique {ts ts' rest rest' : List Located} {tree tree' : FunctionTree}
    (derives : DerivesFunction ts tree) (derives' : DerivesFunction ts' tree')
    (same : ts ++ rest = ts' ++ rest') : tree = tree' ∧ rest = rest' := by
  obtain ⟨_, called, _, parameters, closed, _, body, left⟩ := derives
  obtain ⟨_, called', _, parameters', closed', _, body', left'⟩ := derives'
  simp only [List.cons_append, List.append_assoc, List.nil_append, List.cons.injEq] at same
  obtain ⟨rfl, rfl, -, same⟩ := same
  obtain ⟨rfl, same⟩ := parameters.unique parameters' closed closed' same
  obtain ⟨rfl, stop⟩ := body.unique body' left left' (List.cons.inj same).2
  cases stop
  cases called.symm.trans called'
  exact ⟨rfl, rfl⟩

/-- **A list of tokens has at most one derivation as a program.** -/
theorem DerivesProgram.unique {tokens : List Located} {trees trees' : List FunctionTree}
    (derives : DerivesProgram tokens trees) (derives' : DerivesProgram tokens trees') :
    trees = trees' := by
  induction derives generalizing trees' with
  | done =>
    generalize same : [] = tokens at derives'
    cases derives' with
    | done => rfl
    | more first _ =>
      obtain ⟨_⟩ := first
      cases same
  | @more ts us _ _ first _ ih =>
    generalize same : ts ++ us = tokens at derives'
    cases derives' with
    | done =>
      obtain ⟨_⟩ := first
      cases same
    | more first' more' =>
      obtain ⟨rfl, rfl⟩ := first.unique first' same
      rw [ih more']

/-! ## Trailing commas -/

/-- After an operand, a comma separates two arguments. -/
theorem operator?_comma {nest : Nest} {operand : Expr} {frames : List Frame} {purpose : Purpose}
    {comma : Located} {move : Move} (separates : comma.token = .symbol .comma)
    (next : Spot.operator? nest operand frames purpose comma = some move) :
    ∃ frames', move = .stay nest (.operand .start frames' purpose) := by
  have known : BinaryOp.ofToken? comma.token = none := congrArg BinaryOp.ofToken? separates
  simp only [Spot.operator?, known, Spot.close?] at next
  split at next
  · simp [Spot.finish?, separates] at next
  · simp [separates] at next
  · simp only [separates, Option.some.injEq] at next
    exact ⟨_, next.symm⟩
  · cases next

/-- Inside a body, a comma is followed by an operand. -/
theorem next?_comma {nest : Nest} {spot : Spot} {comma : Located} {move : Move}
    (separates : comma.token = .symbol .comma) (next : spot.next? nest comma = some move) :
    ∃ frames purpose, move = .stay nest (.operand .start frames purpose) := by
  cases spot with
  | statement | afterThen _ _ _ => simp [Spot.next?, Spot.begin?, separates] at next
  | target _ _ | guard _ | opening _ => simp [Spot.next?, separates] at next
  | operand _ _ _ => simp [Spot.next?, Spot.operand?_eq, separates] at next
  | name word frames purpose =>
    simp only [Spot.next?, separates] at next
    obtain ⟨frames', rfl⟩ := operator?_comma separates next
    exact ⟨frames', purpose, rfl⟩
  | value operand frames purpose =>
    obtain ⟨frames', rfl⟩ := operator?_comma separates next
    exact ⟨frames', purpose, rfl⟩

/-- After a comma, a closing parenthesis is impossible. -/
theorem next?_after_comma {reading reading' : Reading} {comma closing : Located}
    (separates : comma.token = .symbol .comma) (closed : closing.token = .symbol .rightParen)
    (next : reading.next? comma = some reading') : reading'.next? closing = none := by
  obtain ⟨done, phase⟩ := reading
  cases phase with
  | parameter signature =>
    simp only [Reading.next?, separates, Option.some.injEq] at next
    subst next
    simp [Reading.next?, Reading.goto, closed]
  | body signature nest spot =>
    obtain ⟨move, found, rfl⟩ := Option.map_eq_some_iff.mp next
    obtain ⟨frames, purpose, rfl⟩ := next?_comma separates found
    simp [Reading.next?, Reading.goto, Spot.next?, Spot.operand?_eq, closed]
  | between | functionWord _ _ | functionName _ | parametersOpen _ | parameterComma _
  | parametersClosed _ =>
    simp [Reading.next?, separates] at next

/-- No program has a comma before a closing parenthesis. -/
theorem not_accepts_trailing_comma {comma closing : Located} {tokens ts us : List Located}
    (separates : comma.token = .symbol .comma) (closed : closing.token = .symbol .rightParen)
    (split : tokens = ts ++ comma :: closing :: us) (definitions : List Definition) :
    readDefinitions tokens ≠ .ok definitions := by
  intro accepted
  have run := Reading.readDefinitions_eq_ok_iff.mp accepted
  rw [split, Reading.after?_append] at run
  obtain ⟨reading, -, run⟩ := Option.bind_eq_some_iff.mp run
  obtain ⟨reading', next, run⟩ := Option.bind_eq_some_iff.mp run
  rw [Reading.after?, next?_after_comma separates closed next] at run
  cases run

/-- **The machine accepts exactly the programs of the grammar and returns the definitions of the one
tree that derives them; it accepts no trailing comma.** -/
theorem readDefinitions_accepts_exactly_the_grammar (tokens : List Located) :
    (∀ definitions, readDefinitions tokens = .ok definitions ↔
      ∃ trees, DerivesProgram tokens trees ∧ trees.map FunctionTree.value = definitions) ∧
    (∀ trees trees', DerivesProgram tokens trees → DerivesProgram tokens trees' → trees = trees') ∧
    (∀ ts comma closing us, tokens = ts ++ comma :: closing :: us →
      comma.token = .symbol .comma → closing.token = .symbol .rightParen →
      ∀ definitions, readDefinitions tokens ≠ .ok definitions) := by
  refine ⟨fun definitions => ⟨derives_of_readDefinitions, ?_⟩, fun _ _ derives derives' =>
    derives.unique derives', fun ts comma closing us split separates closed =>
    not_accepts_trailing_comma separates closed split⟩
  rintro ⟨trees, derives, rfl⟩
  exact readDefinitions_of_derives derives

/-- The differences in `a - 1 - 2` are grouped from the left. -/
theorem derives_differences_from_left : ∃ trees,
    DerivesProgram
      (Program.locate (Text.LineIndex.ofText "function f(a) \x7b return a - 1 - 2; \x7d".toList)
        (readTokens "function f(a) \x7b return a - 1 - 2; \x7d".toList)) trees ∧
    trees.map FunctionTree.value = [⟨1, 0, 35, "f", ["a"],
      [.ret 1 (.arith (.arith (.var "a") .sub (.int 1)) .sub (.int 2))]⟩] :=
  ((readDefinitions_accepts_exactly_the_grammar _).1 _).mp rfl

end Dataflow.Grammar
