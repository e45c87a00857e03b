import Dataflow.Proofs.Grammar.Soundness

/-!
# Tokens that can be completed

Tokens are viable when more tokens make a program of the grammar out of them (`Viable`). Whatever the
machine has read is viable: the open parentheses of its frames, the open blocks of its nest and the open
definition can be closed one after the other (`ReadingRead.exists_program`). A token at which it is
stuck ends no viable tokens (`not_viable_of_stuck`), because the machine reads every program.

Being a program is about tokens alone, and not about their places (`DerivesProgram.of_words`), so both
statements are about lists of tokens.
-/

set_option autoImplicit false

namespace Dataflow.Grammar

open Reading

/-- The tokens without their places. -/
def words (tokens : List Located) : List Token := tokens.map (·.token)

/-- The tokens are a program of the grammar, wherever they stand. -/
def Accepted (tokens : List Token) : Prop :=
  ∃ placed trees, words placed = tokens ∧ DerivesProgram placed trees

/-- More tokens make a program of the tokens. -/
def Viable (tokens : List Token) : Prop := ∃ more, Accepted (tokens ++ more)

/-! ## Derivations and places -/

theorem words_append (ts us : List Located) : words (ts ++ us) = words ts ++ words us :=
  List.map_append

theorem words_eq_cons {us ts : List Located} {t : Located} (same : words us = words (t :: ts)) :
    ∃ u us', us = u :: us' ∧ u.token = t.token ∧ words us' = words ts := by
  obtain ⟨u, us', rfl, token, later⟩ := List.map_eq_cons_iff.mp same
  exact ⟨u, us', rfl, token, later⟩

theorem words_eq_append {us as bs : List Located} (same : words us = words (as ++ bs)) :
    ∃ cs ds, us = cs ++ ds ∧ words cs = words as ∧ words ds = words bs := by
  rw [words_append] at same
  obtain ⟨cs, ds, rfl, first, second⟩ := List.map_eq_append_iff.mp same
  exact ⟨cs, ds, rfl, first, second⟩

theorem words_eq_single {us : List Located} {t : Located} (same : words us = words [t]) :
    ∃ u, us = [u] ∧ u.token = t.token := by
  obtain ⟨u, us', rfl, token, later⟩ := words_eq_cons same
  obtain rfl := List.map_eq_nil_iff.mp later
  exact ⟨u, rfl, token⟩

mutual

/-- The same tokens in other places are the same expression. -/
theorem DerivesExpr.of_words : ∀ {n : Nat} {ts : List Located} {tree : ExprTree}, DerivesExpr n ts tree →
    ∀ {us : List Located}, words us = words ts → DerivesExpr n us tree
  | _, _, _, .int token, _, same => by
    obtain ⟨u, rfl, known⟩ := words_eq_single same
    exact .int (known.trans token)
  | _, _, _, .yes token, _, same => by
    obtain ⟨u, rfl, known⟩ := words_eq_single same
    exact .yes (known.trans token)
  | _, _, _, .no token, _, same => by
    obtain ⟨u, rfl, known⟩ := words_eq_single same
    exact .no (known.trans token)
  | _, _, _, .name token, _, same => by
    obtain ⟨u, rfl, known⟩ := words_eq_single same
    exact .name (known.trans token)
  | _, _, _, .call token opened arguments closed, _, same => by
    obtain ⟨u, _, rfl, token', same⟩ := words_eq_cons same
    obtain ⟨v, _, rfl, opened', same⟩ := words_eq_cons same
    obtain ⟨cs, _, rfl, inner, last⟩ := words_eq_append same
    obtain ⟨w, rfl, closed'⟩ := words_eq_single last
    exact .call (token'.trans token) (opened'.trans opened) (arguments.of_words inner)
      (closed'.trans closed)
  | _, _, _, .group opened derives closed, _, same => by
    obtain ⟨u, _, rfl, opened', same⟩ := words_eq_cons same
    obtain ⟨cs, _, rfl, inner, last⟩ := words_eq_append same
    obtain ⟨w, rfl, closed'⟩ := words_eq_single last
    exact .group (opened'.trans opened) (derives.of_words inner) (closed'.trans closed)
  | _, _, _, .atom derives, _, same => .atom (derives.of_words same)
  | _, _, _, .unary listed derives, _, same => by
    obtain ⟨u, us, rfl, token, same⟩ := words_eq_cons same
    exact .unary (token ▸ listed) (derives.of_words same)
  | _, _, _, .chain binary first operands, _, same => by
    obtain ⟨cs, ds, rfl, head, tail⟩ := words_eq_append same
    exact .chain binary (first.of_words head) (operands.of_words tail)
termination_by structural _ _ _ derives => derives

theorem DerivesOperands.of_words : ∀ {n : Nat} {ts : List Located} {left tree : ExprTree},
    DerivesOperands n ts left tree → ∀ {us : List Located}, words us = words ts →
    DerivesOperands n us left tree
  | _, _, _, _, .done, _, same => by
    obtain rfl := List.map_eq_nil_iff.mp same
    exact .done
  | _, _, _, _, .more listed derives operands, _, same => by
    obtain ⟨u, _, rfl, token, same⟩ := words_eq_cons same
    obtain ⟨cs, ds, rfl, head, tail⟩ := words_eq_append same
    exact .more (token ▸ listed) (derives.of_words head) (operands.of_words tail)
termination_by structural _ _ _ _ operands => operands

theorem DerivesArguments.of_words : ∀ {ts : List Located} {arguments : List ExprTree},
    DerivesArguments ts arguments → ∀ {us : List Located}, words us = words ts →
    DerivesArguments us arguments
  | _, _, .none, _, same => by
    obtain rfl := List.map_eq_nil_iff.mp same
    exact .none
  | _, _, .some first more, _, same => by
    obtain ⟨cs, ds, rfl, head, tail⟩ := words_eq_append same
    exact .some (first.of_words head) (more.of_words tail)
termination_by structural _ _ arguments => arguments

theorem DerivesMoreArguments.of_words : ∀ {ts : List Located} {arguments : List ExprTree},
    DerivesMoreArguments ts arguments → ∀ {us : List Located}, words us = words ts →
    DerivesMoreArguments us arguments
  | _, _, .done, _, same => by
    obtain rfl := List.map_eq_nil_iff.mp same
    exact .done
  | _, _, .more comma first more, _, same => by
    obtain ⟨u, _, rfl, token, same⟩ := words_eq_cons same
    obtain ⟨cs, ds, rfl, head, tail⟩ := words_eq_append same
    exact .more (token.trans comma) (first.of_words head) (more.of_words tail)
termination_by structural _ _ more => more

end

theorem DerivesGuard.of_words {ts us : List Located} {condition : ExprTree}
    (guarded : DerivesGuard ts condition) (same : words us = words ts) : DerivesGuard us condition := by
  cases guarded with
  | guard opened derives closed =>
    obtain ⟨u, _, rfl, opened', same⟩ := words_eq_cons same
    obtain ⟨cs, _, rfl, inner, last⟩ := words_eq_append same
    obtain ⟨w, rfl, closed'⟩ := words_eq_single last
    exact .guard (opened'.trans opened) (derives.of_words inner) (closed'.trans closed)

mutual

/-- The same tokens in other places are a statement, on another line. -/
theorem DerivesStmt.of_words : ∀ {ts : List Located} {tree : StmtTree}, DerivesStmt ts tree →
    ∀ {us : List Located}, words us = words ts → ∃ tree', DerivesStmt us tree'
  | _, _, .assign token equals derives stops, _, same => by
    obtain ⟨u, _, rfl, token', same⟩ := words_eq_cons same
    obtain ⟨v, _, rfl, equals', same⟩ := words_eq_cons same
    obtain ⟨cs, _, rfl, inner, last⟩ := words_eq_append same
    obtain ⟨w, rfl, stops'⟩ := words_eq_single last
    exact ⟨_, .assign (token'.trans token) (equals'.trans equals) (derives.of_words inner)
      (stops'.trans stops)⟩
  | _, _, .ifThen token guarded block, _, same => by
    obtain ⟨u, _, rfl, token', same⟩ := words_eq_cons same
    obtain ⟨cs, ds, rfl, head, tail⟩ := words_eq_append same
    obtain ⟨_, block'⟩ := block.of_words tail
    exact ⟨_, .ifThen (token'.trans token) (guarded.of_words head) block'⟩
  | _, _, .ifElse token guarded block alternative second, _, same => by
    obtain ⟨u, _, rfl, token', same⟩ := words_eq_cons same
    obtain ⟨cs, _, rfl, head, same⟩ := words_eq_append same
    obtain ⟨ds, _, rfl, middle, same⟩ := words_eq_append same
    obtain ⟨v, es, rfl, alternative', tail⟩ := words_eq_cons same
    obtain ⟨_, block'⟩ := block.of_words middle
    obtain ⟨_, second'⟩ := second.of_words tail
    exact ⟨_, .ifElse (token'.trans token) (guarded.of_words head) block'
      (alternative'.trans alternative) second'⟩
  | _, _, .loop token guarded block, _, same => by
    obtain ⟨u, _, rfl, token', same⟩ := words_eq_cons same
    obtain ⟨cs, ds, rfl, head, tail⟩ := words_eq_append same
    obtain ⟨_, block'⟩ := block.of_words tail
    exact ⟨_, .loop (token'.trans token) (guarded.of_words head) block'⟩
  | _, _, .ret token derives stops, _, same => by
    obtain ⟨u, _, rfl, token', same⟩ := words_eq_cons same
    obtain ⟨cs, _, rfl, inner, last⟩ := words_eq_append same
    obtain ⟨w, rfl, stops'⟩ := words_eq_single last
    exact ⟨_, .ret (token'.trans token) (derives.of_words inner) (stops'.trans stops)⟩
termination_by structural _ _ derives => derives

theorem DerivesBlock.of_words : ∀ {ts : List Located} {body : List StmtTree}, DerivesBlock ts body →
    ∀ {us : List Located}, words us = words ts → ∃ body', DerivesBlock us body'
  | _, _, .block opened derives closed, _, same => by
    obtain ⟨u, _, rfl, opened', same⟩ := words_eq_cons same
    obtain ⟨cs, _, rfl, inner, last⟩ := words_eq_append same
    obtain ⟨w, rfl, closed'⟩ := words_eq_single last
    obtain ⟨_, derives'⟩ := derives.of_words inner
    exact ⟨_, .block (opened'.trans opened) derives' (closed'.trans closed)⟩
termination_by structural _ _ block => block

theorem DerivesStmts.of_words : ∀ {ts : List Located} {body : List StmtTree}, DerivesStmts ts body →
    ∀ {us : List Located}, words us = words ts → ∃ body', DerivesStmts us body'
  | _, _, .done, _, same => by
    obtain rfl := List.map_eq_nil_iff.mp same
    exact ⟨_, .done⟩
  | _, _, .more first rest, _, same => by
    obtain ⟨cs, ds, rfl, head, tail⟩ := words_eq_append same
    obtain ⟨_, first'⟩ := first.of_words head
    obtain ⟨_, rest'⟩ := rest.of_words tail
    exact ⟨_, .more first' rest'⟩
termination_by structural _ _ derives => derives

end

theorem DerivesMoreParameters.of_words {ts us : List Located} {parameters : List String}
    (derives : DerivesMoreParameters ts parameters) (same : words us = words ts) :
    DerivesMoreParameters us parameters := by
  induction derives generalizing us with
  | done =>
    obtain rfl := List.map_eq_nil_iff.mp same
    exact .done
  | more comma token _ ih =>
    obtain ⟨u, _, rfl, comma', same⟩ := words_eq_cons same
    obtain ⟨v, _, rfl, token', same⟩ := words_eq_cons same
    exact .more (comma'.trans comma) (token'.trans token) (ih same)

theorem DerivesParameters.of_words {ts us : List Located} {parameters : List String}
    (derives : DerivesParameters ts parameters) (same : words us = words ts) :
    DerivesParameters us parameters := by
  cases derives with
  | none =>
    obtain rfl := List.map_eq_nil_iff.mp same
    exact .none
  | some token more =>
    obtain ⟨u, _, rfl, token', same⟩ := words_eq_cons same
    exact .some (token'.trans token) (more.of_words same)

theorem DerivesFunction.of_words {ts us : List Located} {tree : FunctionTree}
    (derives : DerivesFunction ts tree) (same : words us = words ts) :
    ∃ tree', DerivesFunction us tree' := by
  cases derives with
  | function head called opened parameters closed entered body left =>
    obtain ⟨u, _, rfl, head', same⟩ := words_eq_cons same
    obtain ⟨v, _, rfl, called', same⟩ := words_eq_cons same
    obtain ⟨w, _, rfl, opened', same⟩ := words_eq_cons same
    obtain ⟨cs, _, rfl, listed, same⟩ := words_eq_append same
    obtain ⟨x, _, rfl, closed', same⟩ := words_eq_cons same
    obtain ⟨y, _, rfl, entered', same⟩ := words_eq_cons same
    obtain ⟨ds, _, rfl, inner, last⟩ := words_eq_append same
    obtain ⟨z, rfl, left'⟩ := words_eq_single last
    obtain ⟨_, body'⟩ := body.of_words inner
    exact ⟨_, .function (head'.trans head) (called'.trans called) (opened'.trans opened)
      (parameters.of_words listed) (closed'.trans closed) (entered'.trans entered) body'
      (left'.trans left)⟩

/-- **The same tokens in other places are a program.** -/
theorem DerivesProgram.of_words {ts us : List Located} {trees : List FunctionTree}
    (derives : DerivesProgram ts trees) (same : words us = words ts) :
    ∃ trees', DerivesProgram us trees' := by
  induction derives generalizing us with
  | done =>
    obtain rfl := List.map_eq_nil_iff.mp same
    exact ⟨_, .done⟩
  | more first _ ih =>
    obtain ⟨cs, ds, rfl, head, tail⟩ := words_eq_append same
    obtain ⟨_, first'⟩ := first.of_words head
    obtain ⟨_, rest'⟩ := ih tail
    exact ⟨_, .more first' rest'⟩

/-! ## Completions -/

/-- A token that is added to complete others. -/
def added (token : Token) : Located := ⟨token, 0, 0, 0⟩

theorem fits_six (frames : List Frame) : Fits 6 frames := by
  unfold Fits
  split
  · exact Nat.le_refl 6
  · next op _ => exact precedence_lt op
  · trivial

/-- **Open parentheses and argument lists can be closed after an operand.** -/
theorem FramesRead.exists_expr {fs ts : List Located} {frames : List Frame} {tree : ExprTree} {n : Nat}
    (read : FramesRead fs frames) (fits : Fits n frames) (derives : DerivesExpr n ts tree)
    (atMost : n ≤ 7) : ∃ closing whole, DerivesExpr 0 (fs ++ (ts ++ closing)) whole := by
  -- From the innermost frame outwards: each makes one operand of what stands after it.
  induction read generalizing n ts tree with
  | nil => exact ⟨[], tree, by simpa using derives.loosen (Nat.zero_le n) atMost⟩
  | @unary fs frames t op _ listed ih =>
    have operand : DerivesExpr 6 ts tree := derives.loosen fits atMost
    obtain ⟨closing, whole, derived⟩ := ih (fits_six frames) (.unary listed operand) (by decide)
    exact ⟨closing, whole, by simpa using derived⟩
  | @binary fs us frames left t op _ below first listed ih =>
    have right : DerivesExpr (op.precedence + 1) ts tree := derives.loosen fits atMost
    have tight := precedence_lt op
    obtain ⟨closing, whole, derived⟩ := ih below (first.binary listed right) (by omega)
    exact ⟨closing, whole, by simpa using derived⟩
  | @group fs frames t _ opened ih =>
    have inner : DerivesExpr 0 ts tree := derives.loosen (Nat.zero_le n) atMost
    have grouped : DerivesExpr 7 (t :: (ts ++ [added (.symbol .rightParen)])) (.group tree) :=
      .group opened inner rfl
    obtain ⟨closing, whole, derived⟩ := ih (fits_six frames) (.atom grouped) (by decide)
    exact ⟨added (.symbol .rightParen) :: closing, whole, by simpa using derived⟩
  | @call fs us frames t opening word arguments _ token opened read ih =>
    have last : DerivesExpr 0 ts tree := derives.loosen (Nat.zero_le n) atMost
    have called : DerivesExpr 7 (t :: opening :: (us ++ ts ++ [added (.symbol .rightParen)]))
        (.call word (arguments ++ [tree])) := .call token opened (read.complete last) rfl
    obtain ⟨closing, whole, derived⟩ := ih (fits_six frames) (.atom called) (by decide)
    exact ⟨added (.symbol .rightParen) :: closing, whole, by simpa using derived⟩

/-- So can they where an operand is due. -/
theorem FramesRead.exists_expr_of_due {fs : List Located} {frames : List Frame}
    (read : FramesRead fs frames) : ∃ closing whole, DerivesExpr 0 (fs ++ closing) whole := by
  have zero : DerivesExpr 6 [added (.int 0)] (.int 0) := .atom (.int rfl)
  obtain ⟨closing, whole, derives⟩ := read.exists_expr (fits_six frames) zero (by decide)
  exact ⟨_, whole, derives⟩

/-- A block with no statement in it. -/
def emptyBlock : List Located := [added (.symbol .leftBrace), added (.symbol .rightBrace)]

theorem derives_emptyBlock : DerivesBlock emptyBlock [] := .block rfl .done rfl

/-- An expression read for a purpose becomes a statement. -/
theorem PurposeRead.exists_stmt {ps ts : List Located} {purpose : Purpose} {tree : ExprTree}
    (reads : PurposeRead ps purpose) (derives : DerivesExpr 0 ts tree) :
    ∃ closing stmt, DerivesStmt (ps ++ (ts ++ closing)) stmt := by
  cases reads with
  | assign token equals =>
    exact ⟨[added (.symbol .semicolon)], _, .assign token equals derives rfl⟩
  | ret token => exact ⟨[added (.symbol .semicolon)], _, .ret token derives rfl⟩
  | @branch t opening token opened =>
    have guarded : DerivesGuard (opening :: (ts ++ [added (.symbol .rightParen)])) tree :=
      .guard opened derives rfl
    have stmt := DerivesStmt.ifThen token guarded derives_emptyBlock
    exact ⟨added (.symbol .rightParen) :: emptyBlock, _, by simpa using stmt⟩
  | @loop t opening token opened =>
    have guarded : DerivesGuard (opening :: (ts ++ [added (.symbol .rightParen)])) tree :=
      .guard opened derives rfl
    have stmt := DerivesStmt.loop token guarded derives_emptyBlock
    exact ⟨added (.symbol .rightParen) :: emptyBlock, _, by simpa using stmt⟩

/-- A block completes the statement that opens it. -/
theorem OpenerRead.exists_stmt {os bs : List Located} {opener : Opener} {body : List StmtTree}
    (read : OpenerRead os opener) (block : DerivesBlock bs body) :
    ∃ stmt, DerivesStmt (os ++ bs) stmt := by
  cases read with
  | thenBranch token guarded => exact ⟨_, .ifThen token guarded block⟩
  | elseBranch token guarded first alternative =>
    have stmt := DerivesStmt.ifElse token guarded first alternative block
    exact ⟨_, by simpa using stmt⟩
  | loop token guarded => exact ⟨_, .loop token guarded block⟩

/-- An expression in progress that is read for a purpose becomes a statement. -/
theorem PurposeRead.exists_stmt_of_open {ps ts : List Located} {purpose : Purpose}
    (reads : PurposeRead ps purpose)
    (unfinished : ∃ closing whole, DerivesExpr 0 (ts ++ closing) whole) :
    ∃ closing stmt, DerivesStmt (ps ++ ts ++ closing) stmt := by
  obtain ⟨closing, whole, derives⟩ := unfinished
  obtain ⟨more, stmt, derived⟩ := reads.exists_stmt derives
  exact ⟨closing ++ more, stmt, by simpa using derived⟩

/-- The first word of a statement and the token that leads to its expression become a statement. -/
theorem PurposeRead.exists_stmt_of_first {t : Located} {token : Token} {purpose : Purpose}
    (reads : PurposeRead [t, added token] purpose) :
    ∃ closing stmt, DerivesStmt ([t] ++ closing) stmt := by
  obtain ⟨closing, stmt, derived⟩ := reads.exists_stmt_of_open FramesRead.nil.exists_expr_of_due
  exact ⟨added token :: closing, stmt, by simpa using derived⟩

theorem derives_single {ts : List Located} {stmt : StmtTree} (derives : DerivesStmt ts stmt) :
    DerivesStmts ts [stmt] := by
  have whole := DerivesStmts.more derives .done
  rwa [List.append_nil] at whole

/-- **The statement in progress can be completed.** -/
theorem SpotRead.exists_stmts {ss : List Located} {spot : Spot} (read : SpotRead ss spot) :
    ∃ closing body, DerivesStmts (ss ++ closing) body := by
  have completed : (∃ closing stmt, DerivesStmt (ss ++ closing) stmt) →
      ∃ closing body, DerivesStmts (ss ++ closing) body := by
    rintro ⟨closing, stmt, derives⟩
    exact ⟨closing, [stmt], derives_single derives⟩
  cases read with
  | statement => exact ⟨[], [], .done⟩
  | afterThen token guarded block =>
    exact completed ⟨[], _, by simpa using DerivesStmt.ifThen token guarded block⟩
  | @target t word token =>
    have reads : PurposeRead [t, added (.symbol .assign)] (.assign t.line word) := .assign token rfl
    exact completed reads.exists_stmt_of_first
  | @branch t token =>
    have reads : PurposeRead [t, added (.symbol .leftParen)] (.branch t.line) := .branch token rfl
    exact completed reads.exists_stmt_of_first
  | @loop t token =>
    have reads : PurposeRead [t, added (.symbol .leftParen)] (.loop t.line) := .loop token rfl
    exact completed reads.exists_stmt_of_first
  | opening read =>
    obtain ⟨stmt, derives⟩ := read.exists_stmt derives_emptyBlock
    exact completed ⟨emptyBlock, stmt, derives⟩
  | operand reads read _ => exact completed (reads.exists_stmt_of_open read.exists_expr_of_due)
  | firstArgument reads read => exact completed (reads.exists_stmt_of_open read.exists_expr_of_due)
  | @name ps fs t word frames purpose reads read token =>
    have name : DerivesExpr 6 [t] (.name word) := .atom (.name token)
    obtain ⟨closing, whole, derives⟩ := read.exists_expr (fits_six frames) name (by decide)
    exact completed (reads.exists_stmt_of_open ⟨closing, whole, by simpa using derives⟩)
  | @value ps ts operand frames purpose reads read =>
    cases read with
    | operand read _ fits derives =>
      obtain ⟨closing, whole, derives⟩ := read.exists_expr fits derives (by decide)
      exact completed (reads.exists_stmt_of_open ⟨closing, whole, by simpa using derives⟩)

/-- Statements after statements. -/
theorem DerivesStmts.append {us : List Located} {more : List StmtTree} (later : DerivesStmts us more) :
    ∀ {ts : List Located} {body : List StmtTree}, DerivesStmts ts body →
    DerivesStmts (ts ++ us) (body ++ more)
  | _, _, .done => later
  | _, _, .more first body => by
    rw [List.append_assoc]
    exact .more first (later.append body)

/-- **The open blocks can be closed after statements.** -/
theorem NestRead.exists_stmts {ns ss : List Located} {nest : Nest} {body : List StmtTree}
    (read : NestRead ns nest) (derives : DerivesStmts ss body) :
    ∃ closing whole, DerivesStmts (ns ++ (ss ++ closing)) whole := by
  -- From the innermost block outwards: each becomes one statement of the block around it.
  induction read generalizing ss body with
  | function before => exact ⟨[], _, by simpa using derives.append before⟩
  | @block ns os ts outer opener opening before _ read opened inner ih =>
    have block : DerivesBlock (opening :: (ts ++ ss ++ [added (.symbol .rightBrace)]))
        (before ++ body) := .block opened (derives.append inner) rfl
    obtain ⟨stmt, derived⟩ := read.exists_stmt block
    obtain ⟨closing, whole, wholeDerived⟩ := ih (derives_single derived)
    exact ⟨added (.symbol .rightBrace) :: closing, whole, by simpa using wholeDerived⟩

/-- The head of a definition that lacks its closing parenthesis is that of a function. -/
theorem SignatureRead.exists_function {hs : List Located} {signature : Signature}
    (read : SignatureRead hs signature) :
    ∃ tree, DerivesFunction (hs ++ added (.symbol .rightParen) :: emptyBlock) tree := by
  obtain ⟨tree, derives, -⟩ : ∃ tree, DerivesFunction (hs ++ added (.symbol .rightParen) ::
      added (.symbol .leftBrace) :: ([] ++ [added (.symbol .rightBrace)])) tree ∧ _ :=
    read.complete rfl rfl .done rfl
  exact ⟨tree, derives⟩

/-- **The definition in progress can be completed.** -/
theorem PhaseRead.exists_program {ps : List Located} {phase : Phase} (read : PhaseRead ps phase) :
    ∃ closing trees, DerivesProgram (ps ++ closing) trees := by
  have completed : (∃ closing tree, DerivesFunction (ps ++ closing) tree) →
      ∃ closing trees, DerivesProgram (ps ++ closing) trees := by
    rintro ⟨closing, tree, derives⟩
    have whole := DerivesProgram.more derives .done
    rw [List.append_nil] at whole
    exact ⟨closing, [tree], whole⟩
  cases read with
  | between => exact ⟨[], [], .done⟩
  | @functionWord t head =>
    have read : SignatureRead [t, added (.identifier "f"), added (.symbol .leftParen)]
        ⟨t.line, t.start, "f", []⟩ := .signature head rfl rfl .none
    exact completed ⟨_, read.exists_function⟩
  | @functionName t called word head name =>
    have read : SignatureRead [t, called, added (.symbol .leftParen)] ⟨t.line, t.start, word, []⟩ :=
      .signature head name rfl .none
    exact completed ⟨_, read.exists_function⟩
  | parametersOpen read _ => exact completed ⟨_, read.exists_function⟩
  | parameter read _ => exact completed ⟨_, read.exists_function⟩
  | @parameterComma hs signature comma read some separates =>
    have longer : SignatureRead (hs ++ [comma] ++ [added (.identifier "x")]) (signature.push "x") :=
      read.push some separates rfl
    obtain ⟨tree, derives⟩ := longer.exists_function
    exact completed ⟨_, tree, by simpa using derives⟩
  | @parametersClosed hs signature closing read closed =>
    obtain ⟨tree, derives, -⟩ : ∃ tree, DerivesFunction (hs ++ closing ::
        added (.symbol .leftBrace) :: ([] ++ [added (.symbol .rightBrace)])) tree ∧ _ :=
      read.complete closed rfl .done rfl
    exact completed ⟨emptyBlock, tree, by simpa [emptyBlock] using derives⟩
  | @body hs ns ss signature closing entering nest spot read closed entered nestRead spotRead =>
    obtain ⟨ending, inner, derives⟩ := spotRead.exists_stmts
    obtain ⟨more, body, derives⟩ := nestRead.exists_stmts derives
    obtain ⟨tree, derives, -⟩ : ∃ tree, DerivesFunction (hs ++ closing :: entering ::
        (ns ++ (ss ++ ending ++ more) ++ [added (.symbol .rightBrace)])) tree ∧ _ :=
      read.complete closed entered derives rfl
    exact completed ⟨ending ++ more ++ [added (.symbol .rightBrace)], tree, by simpa using derives⟩

theorem DerivesProgram.append {ts us : List Located} {trees more : List FunctionTree}
    (derives : DerivesProgram ts trees) (later : DerivesProgram us more) :
    DerivesProgram (ts ++ us) (trees ++ more) := by
  induction derives with
  | done => exact later
  | more first _ ih =>
    rw [List.append_assoc]
    exact .more first ih

/-- **What has been read can be completed.** -/
theorem ReadingRead.exists_program {ts : List Located} {reading : Reading}
    (read : ReadingRead ts reading) : ∃ closing trees, DerivesProgram (ts ++ closing) trees := by
  cases read with
  | reading before phaseRead =>
    obtain ⟨closing, trees, derives⟩ := phaseRead.exists_program
    exact ⟨closing, _, by simpa using before.append derives⟩

/-! ## Viable tokens -/

/-- **Tokens that the machine reads are viable.** -/
theorem viable_of_after? {tokens : List Located} {reading : Reading}
    (run : initial.after? tokens = some reading) : Viable (words tokens) := by
  have start : ReadingRead [] initial := .reading .done .between
  obtain ⟨closing, trees, derives⟩ := (start.after? run).exists_program
  exact ⟨words closing, tokens ++ closing, trees, words_append tokens closing, derives⟩

/-- **Tokens up to the one at which the machine is stuck are not viable.** -/
theorem not_viable_of_stuck {tokens : List Located} {t : Located} {reading : Reading}
    (run : initial.after? tokens = some reading) (stuck : reading.next? t = none) :
    ¬ Viable (words (tokens ++ [t])) := by
  rintro ⟨more, placed, trees, same, derives⟩
  -- The machine would read a program that starts with these very tokens.
  obtain ⟨front, back, rfl, front_eq, -⟩ := List.map_eq_append_iff.mp same
  have start : words (tokens ++ [t] ++ back) = words (front ++ back) := by
    rw [words_append (tokens ++ [t]), words_append front]
    exact congrArg (· ++ words back) front_eq.symm
  obtain ⟨trees', derives'⟩ := derives.of_words start
  have read := readDefinitions_eq_ok_iff.mp (readDefinitions_of_derives derives')
  rw [List.append_assoc, after?_append, run, Option.bind_some, List.singleton_append, after?,
    stuck] at read
  cases read

end Dataflow.Grammar
