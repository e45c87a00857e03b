import Dataflow.Proofs.Grammar.Completeness

/-!
# The machine reads only what the grammar derives

Each phase of the machine stands for the tokens read so far: its frames for operands and operators that
wait (`FramesRead`), its spot for the statement in progress (`SpotRead`), its nest for the open blocks
(`NestRead`). One token keeps the relation (`ReadingRead.next?`), so a run from the start to its end has
read a program of the grammar (`derives_of_readDefinitions`).
-/

set_option autoImplicit false

namespace Dataflow.Grammar

open Reading

/-! ## Derivations extended on the right -/

/-- An expression of a level is one of every looser level. -/
theorem DerivesExpr.loosen {n m : Nat} {ts : List Located} {tree : ExprTree} (le : n ≤ m) (atMost : m ≤ 7)
    (derives : DerivesExpr m ts tree) : DerivesExpr n ts tree := by
  induction m with
  | zero =>
    obtain rfl : n = 0 := Nat.le_zero.mp le
    exact derives
  | succ m ih =>
    by_cases same : n = m + 1
    · exact same ▸ derives
    · refine ih (by omega) (by omega) ?_
      by_cases binary : m < 6
      · have whole := DerivesExpr.chain binary derives .done
        rwa [List.append_nil] at whole
      · obtain rfl : m = 6 := by omega
        exact .atom derives

/-- One more operand after the others. -/
theorem DerivesOperands.snoc {n : Nat} {t : Located} {op : BinaryOp} {ts : List Located}
    {right : ExprTree} (listed : (t.token, op) ∈ operators n) (derives : DerivesExpr (n + 1) ts right) :
    ∀ {us : List Located} {left tree : ExprTree}, DerivesOperands n us left tree →
    DerivesOperands n (us ++ t :: ts) left (.binary tree op right)
  | _, left, _, .done => by
    have whole : DerivesOperands n (t :: (ts ++ [])) left (.binary left op right) :=
      .more listed derives .done
    rwa [List.append_nil] at whole
  | _, _, _, .more listed' derives' operands => by
    rw [List.cons_append, List.append_assoc]
    exact .more listed' derives' (DerivesOperands.snoc listed derives operands)

/-- A binary operator between an expression of its level and one of the next. -/
theorem DerivesExpr.binary {n : Nat} {ts us : List Located} {left right : ExprTree} {t : Located}
    {op : BinaryOp} (derives : DerivesExpr n ts left) (listed : (t.token, op) ∈ operators n)
    (operand : DerivesExpr (n + 1) us right) :
    DerivesExpr n (ts ++ t :: us) (.binary left op right) := by
  cases derives with
  | chain binary first operands =>
    rw [List.append_assoc]
    exact .chain binary first (DerivesOperands.snoc listed operand operands)
  | int _ | yes _ | no _ | name _ | call _ _ _ _ | group _ _ _ | atom _ | unary _ _ => cases listed

/-- One more argument after the others. -/
theorem DerivesMoreArguments.snoc {comma : Located} {ts : List Located} {last : ExprTree}
    (separates : comma.token = .symbol .comma) (derives : DerivesExpr 0 ts last) :
    ∀ {us : List Located} {arguments : List ExprTree}, DerivesMoreArguments us arguments →
    DerivesMoreArguments (us ++ comma :: ts) (arguments ++ [last])
  | _, _, .done => by
    have whole := DerivesMoreArguments.more separates derives .done
    rwa [List.append_nil] at whole
  | _, _, .more comma' first arguments => by
    rw [List.cons_append, List.append_assoc]
    exact .more comma' first (DerivesMoreArguments.snoc separates derives arguments)

/-- One more statement after the others. -/
theorem DerivesStmts.snoc {ts : List Located} {last : StmtTree} (derives : DerivesStmt ts last) :
    ∀ {us : List Located} {body : List StmtTree}, DerivesStmts us body →
    DerivesStmts (us ++ ts) (body ++ [last])
  | _, _, .done => by
    have whole := DerivesStmts.more derives .done
    rwa [List.append_nil] at whole
  | _, _, .more first body => by
    rw [List.append_assoc]
    exact .more first (DerivesStmts.snoc derives body)

theorem ExprTree.values_append (trees more : List ExprTree) :
    ExprTree.values (trees ++ more) = ExprTree.values trees ++ ExprTree.values more := by
  induction trees with
  | nil => rfl
  | cons tree rest ih => simp [ExprTree.values, ih]

theorem StmtTree.values_append (trees more : List StmtTree) :
    StmtTree.values (trees ++ more) = StmtTree.values trees ++ StmtTree.values more := by
  induction trees with
  | nil => rfl
  | cons tree rest ih => simp [StmtTree.values, ih]

/-! ## Frames -/

/-- The tokens of an open argument list: nothing, or arguments and a comma. -/
inductive ArgumentsRead : List Located → List ExprTree → Prop
  | none : ArgumentsRead [] []
  | some {ts : List Located} {first : ExprTree} {rest : List ExprTree} {comma : Located} :
      DerivesArguments ts (first :: rest) → comma.token = .symbol .comma →
      ArgumentsRead (ts ++ [comma]) (first :: rest)

/-- An argument completes an open argument list. -/
theorem ArgumentsRead.complete {us ts : List Located} {arguments : List ExprTree} {last : ExprTree}
    (read : ArgumentsRead us arguments) (derives : DerivesExpr 0 ts last) :
    DerivesArguments (us ++ ts) (arguments ++ [last]) := by
  cases read with
  | none =>
    have whole := DerivesArguments.some derives .done
    rwa [List.append_nil] at whole
  | some before comma =>
    cases before with
    | some first more =>
      rw [List.append_assoc, List.append_assoc, List.singleton_append]
      exact .some first (more.snoc comma derives)

/-- An argument and a comma leave the argument list open. -/
theorem ArgumentsRead.push {us ts : List Located} {arguments : List ExprTree} {last : ExprTree}
    {comma : Located} (read : ArgumentsRead us arguments) (derives : DerivesExpr 0 ts last)
    (separates : comma.token = .symbol .comma) :
    ArgumentsRead (us ++ ts ++ [comma]) (arguments ++ [last]) := by
  have whole := read.complete derives
  cases arguments with
  | nil => exact .some whole separates
  | cons first rest => exact .some whole separates

/-- The tokens that frames stand for, innermost frame last. -/
inductive FramesRead : List Located → List Frame → Prop
  | nil : FramesRead [] []
  | unary {fs : List Located} {frames : List Frame} {t : Located} {op : UnaryOp} :
      FramesRead fs frames → (t.token, op) ∈ prefixes → FramesRead (fs ++ [t]) (.unary op :: frames)
  | binary {fs ts : List Located} {frames : List Frame} {left : ExprTree} {t : Located}
      {op : BinaryOp} : FramesRead fs frames → Fits op.precedence frames →
      DerivesExpr op.precedence ts left → (t.token, op) ∈ operators op.precedence →
      FramesRead (fs ++ (ts ++ [t])) (.binary left.value op :: frames)
  | group {fs : List Located} {frames : List Frame} {t : Located} :
      FramesRead fs frames → t.token = .symbol .leftParen → FramesRead (fs ++ [t]) (.group :: frames)
  | call {fs us : List Located} {frames : List Frame} {t opening : Located} {word : String}
      {arguments : List ExprTree} : FramesRead fs frames → t.token = .identifier word →
      opening.token = .symbol .leftParen → ArgumentsRead us arguments →
      FramesRead (fs ++ t :: opening :: us) (.call word (ExprTree.values arguments) :: frames)

theorem FramesRead.of_call {fs : List Located} {frames : List Frame} {word : String}
    {values : List Expr} (read : FramesRead fs (.call word values :: frames)) :
    ∃ fs' us t opening arguments, fs = fs' ++ t :: opening :: us ∧ FramesRead fs' frames ∧
      t.token = .identifier word ∧ opening.token = .symbol .leftParen ∧
      ArgumentsRead us arguments ∧ ExprTree.values arguments = values := by
  generalize same : Frame.call word values :: frames = stack at read
  cases read <;> cases same
  next opened arguments token read =>
    exact ⟨_, _, _, _, _, rfl, read, token, opened, arguments, rfl⟩

/-- No prefix operator waits for the operand that was read last. -/
def Settled : List Frame → Prop
  | .unary _ :: _ => False
  | _ => True

/-- The tokens of frames and of an expression of a level after them, whose value is given. -/
inductive OperandRead (n : Nat) : List Located → Expr × List Frame → Prop
  | operand {fs ts : List Located} {frames : List Frame} {tree : ExprTree} :
      FramesRead fs frames → Settled frames → Fits n frames → DerivesExpr n ts tree →
      OperandRead n (fs ++ ts) (tree.value, frames)

theorem precedence_lt (op : BinaryOp) : op.precedence < 6 := by
  cases op with
  | arith op => cases op <;> decide
  | logic op => cases op <;> decide
  | compare _ => exact (by decide : 3 < 6)
  | equality _ => exact (by decide : 2 < 6)

/-- An operand that took the prefix operators before it is an operand. -/
theorem FramesRead.absorb {fs ts : List Located} {frames : List Frame} {tree : ExprTree}
    (read : FramesRead fs frames) (derives : DerivesExpr 6 ts tree) :
    OperandRead 6 (fs ++ ts) (Frame.absorb tree.value frames) := by
  induction read generalizing ts tree with
  | nil => exact .operand .nil trivial trivial derives
  | @unary fs frames t op _ listed ih =>
    rw [List.append_assoc, Frame.absorb, ← value_unary]
    exact ih (.unary listed derives)
  | @binary fs us frames left t op read fits first listed _ =>
    exact .operand (.binary read fits first listed) trivial (precedence_lt op) derives
  | group read opened _ => exact .operand (.group read opened) trivial trivial derives
  | call read token opened arguments _ =>
    exact .operand (.call read token opened arguments) trivial trivial derives

/-- An operand that was joined to the left operands before it is an expression of the level of the
operator that joined them. -/
theorem FramesRead.reduce {fs ts : List Located} {frames : List Frame} {tree : ExprTree} {n m : Nat}
    (read : FramesRead fs frames) (settled : Settled frames) (fits : Fits m frames)
    (derives : DerivesExpr m ts tree) (le : n ≤ m) (atMost : m ≤ 6) :
    OperandRead n (fs ++ ts) (Frame.reduce n tree.value frames) := by
  induction read generalizing m ts tree with
  | nil => exact .operand .nil trivial trivial (derives.loosen le (by omega))
  | unary _ _ _ => exact settled.elim
  | @binary fs us frames left t op read fits' first listed ih =>
    unfold Frame.reduce
    by_cases joins : n ≤ op.precedence
    · -- The two operands become one of the operator's level, and the frames below fit it.
      have right : DerivesExpr (op.precedence + 1) ts tree := derives.loosen fits (by omega)
      have settled' : Settled frames := by
        cases frames with
        | nil => trivial
        | cons frame _ =>
          cases frame with
          | unary _ => exact absurd fits' (Nat.not_le_of_lt (precedence_lt op))
          | binary _ _ | group | call _ _ => trivial
      have whole := ih settled' fits' (first.binary listed right) joins (Nat.le_of_lt (precedence_lt op))
      rw [if_pos joins]
      simpa only [List.append_assoc, List.singleton_append, ExprTree.value] using whole
    · rw [if_neg joins]
      exact .operand (.binary read fits' first listed) trivial (by simpa [Fits] using joins)
        (derives.loosen le (by omega))
  | group read opened _ =>
    exact .operand (.group read opened) trivial trivial (derives.loosen le (by omega))
  | call read token opened arguments _ =>
    exact .operand (.call read token opened arguments) trivial trivial (derives.loosen le (by omega))

/-! ## Statements -/

/-- The tokens before an expression that is read for a purpose. -/
inductive PurposeRead : List Located → Purpose → Prop
  | assign {t equals : Located} {word : String} : t.token = .identifier word →
      equals.token = .symbol .assign → PurposeRead [t, equals] (.assign t.line word)
  | ret {t : Located} : t.token = .keyword .returnWord → PurposeRead [t] (.ret t.line)
  | branch {t opening : Located} : t.token = .keyword .ifWord → opening.token = .symbol .leftParen →
      PurposeRead [t, opening] (.branch t.line)
  | loop {t opening : Located} : t.token = .keyword .whileWord → opening.token = .symbol .leftParen →
      PurposeRead [t, opening] (.loop t.line)

/-- The tokens of a statement before the brace of one of its blocks. -/
inductive OpenerRead : List Located → Opener → Prop
  | thenBranch {t : Located} {gs : List Located} {condition : ExprTree} :
      t.token = .keyword .ifWord → DerivesGuard gs condition →
      OpenerRead (t :: gs) (.thenBranch t.line condition.value)
  | elseBranch {t otherwise : Located} {gs bs : List Located} {condition : ExprTree}
      {thenBody : List StmtTree} : t.token = .keyword .ifWord → DerivesGuard gs condition →
      DerivesBlock bs thenBody → otherwise.token = .keyword .elseWord →
      OpenerRead (t :: (gs ++ (bs ++ [otherwise])))
        (.elseBranch t.line condition.value (StmtTree.values thenBody))
  | loop {t : Located} {gs : List Located} {condition : ExprTree} :
      t.token = .keyword .whileWord → DerivesGuard gs condition →
      OpenerRead (t :: gs) (.loop t.line condition.value)

/-- The tokens of the statement in progress. -/
inductive SpotRead : List Located → Spot → Prop
  | statement : SpotRead [] .statement
  | afterThen {t : Located} {gs bs : List Located} {condition : ExprTree} {body : List StmtTree} :
      t.token = .keyword .ifWord → DerivesGuard gs condition → DerivesBlock bs body →
      SpotRead (t :: (gs ++ bs)) (.afterThen t.line condition.value (StmtTree.values body))
  | target {t : Located} {word : String} : t.token = .identifier word →
      SpotRead [t] (.target t.line word)
  | branch {t : Located} : t.token = .keyword .ifWord → SpotRead [t] (.guard (.branch t.line))
  | loop {t : Located} : t.token = .keyword .whileWord → SpotRead [t] (.guard (.loop t.line))
  | opening {os : List Located} {opener : Opener} : OpenerRead os opener →
      SpotRead os (.opening opener)
  | operand {ps fs : List Located} {place : OperandPlace} {frames : List Frame} {purpose : Purpose} :
      PurposeRead ps purpose → FramesRead fs frames → place ≠ .firstArgument →
      SpotRead (ps ++ fs) (.operand place frames purpose)
  | firstArgument {ps fs : List Located} {word : String} {frames : List Frame} {purpose : Purpose} :
      PurposeRead ps purpose → FramesRead fs (.call word [] :: frames) →
      SpotRead (ps ++ fs) (.operand .firstArgument (.call word [] :: frames) purpose)
  | name {ps fs : List Located} {t : Located} {word : String} {frames : List Frame}
      {purpose : Purpose} : PurposeRead ps purpose → FramesRead fs frames →
      t.token = .identifier word → SpotRead (ps ++ (fs ++ [t])) (.name word frames purpose)
  | value {ps ts : List Located} {operand : Expr} {frames : List Frame} {purpose : Purpose} :
      PurposeRead ps purpose → OperandRead 6 ts (operand, frames) →
      SpotRead (ps ++ ts) (.value operand frames purpose)

/-- The tokens of the body in progress up to the statement in progress. -/
inductive NestRead : List Located → Nest → Prop
  | function {ts : List Located} {body : List StmtTree} : DerivesStmts ts body →
      NestRead ts ((Nest.function []).extend (StmtTree.values body))
  | block {ns os ts : List Located} {outer : Nest} {opener : Opener} {opening : Located}
      {body : List StmtTree} : NestRead ns outer → OpenerRead os opener →
      opening.token = .symbol .leftBrace → DerivesStmts ts body →
      NestRead (ns ++ (os ++ opening :: ts)) ((opener.enter outer).extend (StmtTree.values body))

/-- The tokens of the body in progress after the token `t`. -/
inductive MoveRead (t : Located) : List Located → Move → Prop
  | stay {ns ss : List Located} {nest : Nest} {spot : Spot} : NestRead ns nest → SpotRead ss spot →
      MoveRead t (ns ++ ss) (.stay nest spot)
  | leave {ts : List Located} {body : List StmtTree} : DerivesStmts ts body →
      t.token = .symbol .rightBrace → MoveRead t (ts ++ [t]) (.leave (StmtTree.values body))

/-- A complete statement goes to the innermost block. -/
theorem NestRead.push {ns ts : List Located} {nest : Nest} {tree : StmtTree} (read : NestRead ns nest)
    (derives : DerivesStmt ts tree) : NestRead (ns ++ ts) (nest.push tree.value) := by
  have pushed (nest : Nest) (body : List StmtTree) :
      (nest.extend (StmtTree.values body)).push tree.value =
        nest.extend (StmtTree.values (body ++ [tree])) := by
    rw [StmtTree.values_append, Nest.push_extend]
    rfl
  cases read with
  | function body =>
    rw [pushed]
    exact .function (DerivesStmts.snoc derives body)
  | block outer opener opened body =>
    rw [pushed, List.append_assoc, List.append_assoc, List.cons_append]
    exact .block outer opener opened (DerivesStmts.snoc derives body)

variable {ns ss : List Located} {nest : Nest} {purpose : Purpose} {t : Located} {move : Move}

/-- The brace that closes the innermost block. -/
theorem NestRead.close (read : NestRead ns nest) (closed : t.token = .symbol .rightBrace) :
    MoveRead t (ns ++ [t]) nest.close := by
  cases read with
  | @function ts body derives => exact .leave derives closed
  | @block ns os ts outer opener opening body outerRead openerRead opened derives =>
    have block : DerivesBlock (opening :: (ts ++ [t])) body := .block opened derives closed
    rw [Opener.close_extend_enter]
    cases openerRead with
    | @thenBranch u gs condition token guarded =>
      have moved := MoveRead.stay (t := t) outerRead (.afterThen token guarded block)
      simpa [Opener.close, StmtTree.value] using moved
    | @elseBranch u otherwise gs bs condition thenBody token guarded first alternative =>
      have moved := MoveRead.stay (t := t)
        (outerRead.push (.ifElse token guarded first alternative block)) .statement
      simpa [Opener.close, StmtTree.value] using moved
    | @loop u gs condition token guarded =>
      have moved := MoveRead.stay (t := t) (outerRead.push (.loop token guarded block)) .statement
      simpa [Opener.close, StmtTree.value] using moved

/-- A token where a statement may start. -/
theorem NestRead.begin? (read : NestRead ns nest) (next : Spot.begin? nest t = some move) :
    MoveRead t (ns ++ [t]) move := by
  unfold Spot.begin? at next
  split at next <;> cases next
  · next token => exact .stay read (.target token)
  · next token => exact .stay read (.branch token)
  · next token => exact .stay read (.loop token)
  · next token =>
    have spot : SpotRead ([t] ++ []) (.operand .start [] (.ret t.line)) :=
      .operand (.ret token) .nil (by decide)
    exact .stay read spot
  · next token => exact read.close token

/-- A complete operand takes the prefix operators before it. -/
theorem PurposeRead.complete {ps fs ts : List Located} {frames : List Frame} {tree : ExprTree}
    (reads : PurposeRead ps purpose) (read : FramesRead fs frames) (derives : DerivesExpr 6 ts tree) :
    SpotRead (ps ++ (fs ++ ts)) (.complete tree.value frames purpose) :=
  .value reads (read.absorb derives)

/-- A token where an operand is due. -/
theorem PurposeRead.operand? {ps fs : List Located} {place : OperandPlace} {frames : List Frame}
    {spot : Spot} (reads : PurposeRead ps purpose) (read : FramesRead fs frames)
    (fresh : place = .firstArgument → ∃ word rest, frames = .call word [] :: rest)
    (next : Spot.operand? place frames purpose t = some spot) :
    SpotRead (ps ++ fs ++ [t]) spot := by
  rw [List.append_assoc]
  rw [Spot.operand?_eq] at next
  split at next
  · next token =>
    cases next
    exact reads.complete read (.atom (.int token))
  · next token =>
    cases next
    exact .name reads read token
  · next key token =>
    cases key with
    | trueWord =>
      cases next
      exact reads.complete read (.atom (.yes token))
    | falseWord =>
      cases next
      exact reads.complete read (.atom (.no token))
    | _ => cases next
  · next mark token =>
    cases mark with
    | minus | bang =>
      cases next
      exact .operand reads (.unary read (by simp [prefixes, token])) (by decide)
    | leftParen =>
      cases next
      exact .operand reads (.group read token) (by decide)
    | rightParen =>
      dsimp only at next
      split at next
      · -- An empty argument list closes right after it opens.
        obtain ⟨word, rest, same⟩ := fresh rfl
        cases same
        cases next
        obtain ⟨fs', us, u, opening, arguments, rfl, read', name, opened, arguments', empty⟩ :=
          read.of_call
        cases arguments' with
        | none =>
          have call := DerivesExpr.call name opened .none token
          have spot := reads.complete read' (.atom call)
          simpa [ExprTree.value, ExprTree.values] using spot
        | some _ _ => cases empty
      · cases next
    | _ => cases next

/-- The token that ends an expression read for a purpose. -/
theorem NestRead.finish? {ps ts : List Located} {tree : ExprTree} (read : NestRead ns nest)
    (reads : PurposeRead ps purpose) (derives : DerivesExpr 0 ts tree)
    (next : Spot.finish? nest tree.value purpose t = some move) :
    MoveRead t (ns ++ (ps ++ ts) ++ [t]) move := by
  unfold Spot.finish? at next
  split at next <;> cases next
  · next stops =>
    cases reads with
    | assign token equals =>
      have moved := MoveRead.stay (t := t) (read.push (.assign token equals derives stops)) .statement
      simpa [StmtTree.value] using moved
  · next stops =>
    cases reads with
    | ret token =>
      have moved := MoveRead.stay (t := t) (read.push (.ret token derives stops)) .statement
      simpa [StmtTree.value] using moved
  · next closed =>
    cases reads with
    | branch token opened =>
      have moved := MoveRead.stay (t := t) read
        (.opening (.thenBranch token (.guard opened derives closed)))
      simpa using moved
  · next closed =>
    cases reads with
    | loop token opened =>
      have moved := MoveRead.stay (t := t) read
        (.opening (.loop token (.guard opened derives closed)))
      simpa using moved

/-- The token that ends an expression inside its innermost delimiter. -/
theorem NestRead.close? {ps fs ts : List Located} {frames : List Frame} {tree : ExprTree}
    (read : NestRead ns nest) (reads : PurposeRead ps purpose) (waits : FramesRead fs frames)
    (derives : DerivesExpr 0 ts tree) (next : Spot.close? nest tree.value frames purpose t = some move) :
    MoveRead t (ns ++ (ps ++ (fs ++ ts)) ++ [t]) move := by
  unfold Spot.close? at next
  cases waits with
  | nil => exact read.finish? reads derives next
  | unary _ _ => cases next
  | binary _ _ _ _ => cases next
  | group waits opened =>
    simp only at next
    split at next <;> cases next
    next closed =>
      have moved := MoveRead.stay (t := t) read
        (reads.complete waits (.atom (.group opened derives closed)))
      simpa [ExprTree.value] using moved
  | call waits token opened arguments =>
    simp only at next
    split at next <;> cases next
    · next comma =>
      have frames := FramesRead.call waits token opened (arguments.push derives comma)
      have spot : SpotRead _ (.operand .start _ purpose) := .operand reads frames (by decide)
      have moved := MoveRead.stay (t := t) read spot
      simpa [ExprTree.values, ExprTree.values_append] using moved
    · next closed =>
      have call := DerivesExpr.call token opened (arguments.complete derives) closed
      have moved := MoveRead.stay (t := t) read (reads.complete waits (.atom call))
      simpa [ExprTree.value, ExprTree.values, ExprTree.values_append] using moved

/-- A token after an operand. -/
theorem NestRead.operator? {ps ts : List Located} {operand : Expr} {frames : List Frame}
    (read : NestRead ns nest) (reads : PurposeRead ps purpose)
    (operandRead : OperandRead 6 ts (operand, frames))
    (next : Spot.operator? nest operand frames purpose t = some move) :
    MoveRead t (ns ++ (ps ++ ts) ++ [t]) move := by
  cases operandRead with
  | @operand fs us _ tree waits settled fits derives =>
  unfold Spot.operator? at next
  split at next
  · next op known =>
    cases next
    have joined := waits.reduce settled fits derives (Nat.le_of_lt (precedence_lt op)) (Nat.le_refl 6)
    -- The relation is indexed by the joined pair and its tokens, which have to be variables here.
    generalize Frame.reduce op.precedence tree.value frames = result at joined
    generalize fs ++ us = tokens at joined
    cases joined with
    | operand waits' _ fits' derives' =>
      have listed := mem_operators_iff.mpr ⟨known, rfl⟩
      have spot : SpotRead _ (.operand .afterOperator _ purpose) :=
        .operand reads (.binary waits' fits' derives' listed) (by decide)
      have moved := MoveRead.stay (t := t) read spot
      simpa using moved
  · have joined := waits.reduce settled fits derives (Nat.zero_le 6) (Nat.le_refl 6)
    generalize Frame.reduce 0 tree.value frames = result at joined next
    generalize fs ++ us = tokens at joined
    cases joined with
    | operand waits' _ _ derives' => exact read.close? reads waits' derives' next

/-- **One token inside a body keeps what the body stands for.** -/
theorem NestRead.next? {spot : Spot} (read : NestRead ns nest) (spotRead : SpotRead ss spot)
    (next : spot.next? nest t = some move) : MoveRead t (ns ++ ss ++ [t]) move := by
  unfold Spot.next? at next
  cases spotRead with
  | statement =>
    rw [List.append_nil]
    exact read.begin? next
  | afterThen token guarded block =>
    simp only at next
    split at next
    · next alternative =>
      cases next
      have moved := MoveRead.stay (t := t) read (.opening (.elseBranch token guarded block alternative))
      simpa using moved
    · -- The branch has no second body, and the token belongs to what follows it.
      exact (read.push (.ifThen token guarded block)).begin? next
  | target token =>
    simp only at next
    split at next <;> cases next
    next equals =>
      have spot : SpotRead _ (.operand .start [] _) := .operand (.assign token equals) .nil (by decide)
      have moved := MoveRead.stay (t := t) read spot
      simpa using moved
  | branch token =>
    simp only at next
    split at next <;> cases next
    next opened =>
      have spot : SpotRead _ (.operand .start [] _) := .operand (.branch token opened) .nil (by decide)
      have moved := MoveRead.stay (t := t) read spot
      simpa using moved
  | loop token =>
    simp only at next
    split at next <;> cases next
    next opened =>
      have spot : SpotRead _ (.operand .start [] _) := .operand (.loop token opened) .nil (by decide)
      have moved := MoveRead.stay (t := t) read spot
      simpa using moved
  | opening openerRead =>
    simp only at next
    split at next <;> cases next
    next opened =>
      have moved := MoveRead.stay (t := t) (.block read openerRead opened .done) .statement
      simpa [StmtTree.values, Nest.extend_nil] using moved
  | @operand ps fs place frames purpose reads waits other =>
    obtain ⟨spot, found, rfl⟩ := Option.map_eq_some_iff.mp next
    have fresh : place = .firstArgument → ∃ word rest, frames = .call word [] :: rest :=
      fun first => absurd first other
    rw [List.append_assoc]
    exact .stay read (reads.operand? waits fresh found)
  | firstArgument reads waits =>
    obtain ⟨spot, found, rfl⟩ := Option.map_eq_some_iff.mp next
    rw [List.append_assoc]
    exact .stay read (reads.operand? waits (fun _ => ⟨_, _, rfl⟩) found)
  | name reads waits token =>
    simp only at next
    split at next
    · next opened =>
      cases next
      have moved := MoveRead.stay (t := t) read
        (.firstArgument reads (.call waits token opened .none))
      simpa using moved
    · exact read.operator? reads (waits.absorb (.atom (.name token))) next
  | value reads operandRead => exact read.operator? reads operandRead next

/-! ## Programs -/

/-- One more parameter after the others. -/
theorem DerivesMoreParameters.snoc {ps : List Located} {parameters : List String} {comma t : Located}
    {word : String} (derives : DerivesMoreParameters ps parameters)
    (separates : comma.token = .symbol .comma) (token : t.token = .identifier word) :
    DerivesMoreParameters (ps ++ [comma, t]) (parameters ++ [word]) := by
  induction derives with
  | done => exact .more separates token .done
  | more comma' token' _ ih => exact .more comma' token' ih

/-- The tokens of the head of a definition up to its last parameter. -/
inductive SignatureRead : List Located → Signature → Prop
  | signature {t called opening : Located} {word : String} {ps : List Located}
      {parameters : List String} : t.token = .keyword .function → called.token = .identifier word →
      opening.token = .symbol .leftParen → DerivesParameters ps parameters →
      SignatureRead (t :: called :: opening :: ps) ⟨t.line, t.start, word, parameters⟩

/-- The tokens of the definition in progress. -/
inductive PhaseRead : List Located → Phase → Prop
  | between : PhaseRead [] .between
  | functionWord {t : Located} : t.token = .keyword .function →
      PhaseRead [t] (.functionWord t.line t.start)
  | functionName {t called : Located} {word : String} : t.token = .keyword .function →
      called.token = .identifier word → PhaseRead [t, called] (.functionName ⟨t.line, t.start, word, []⟩)
  | parametersOpen {hs : List Located} {signature : Signature} : SignatureRead hs signature →
      signature.parameters = [] → PhaseRead hs (.parametersOpen signature)
  | parameter {hs : List Located} {signature : Signature} : SignatureRead hs signature →
      signature.parameters ≠ [] → PhaseRead hs (.parameter signature)
  | parameterComma {hs : List Located} {signature : Signature} {comma : Located} :
      SignatureRead hs signature → signature.parameters ≠ [] → comma.token = .symbol .comma →
      PhaseRead (hs ++ [comma]) (.parameterComma signature)
  | parametersClosed {hs : List Located} {signature : Signature} {closing : Located} :
      SignatureRead hs signature → closing.token = .symbol .rightParen →
      PhaseRead (hs ++ [closing]) (.parametersClosed signature)
  | body {hs ns ss : List Located} {signature : Signature} {closing entering : Located} {nest : Nest}
      {spot : Spot} : SignatureRead hs signature → closing.token = .symbol .rightParen →
      entering.token = .symbol .leftBrace → NestRead ns nest → SpotRead ss spot →
      PhaseRead (hs ++ closing :: entering :: (ns ++ ss)) (.body signature nest spot)

/-- The tokens of the complete definitions and of the definition in progress. -/
inductive ReadingRead : List Located → Reading → Prop
  | reading {ts ps : List Located} {trees : List FunctionTree} {phase : Phase} :
      DerivesProgram ts trees → PhaseRead ps phase →
      ReadingRead (ts ++ ps) ⟨trees.map FunctionTree.value, phase⟩

/-- The first parameter. -/
theorem SignatureRead.pushFirst {hs : List Located} {signature : Signature} {word : String}
    (read : SignatureRead hs signature) (empty : signature.parameters = [])
    (token : t.token = .identifier word) : SignatureRead (hs ++ [t]) (signature.push word) := by
  cases read with
  | signature head called opened parameters =>
    cases parameters with
    | none => exact .signature head called opened (.some token .done)
    | some _ _ => cases empty

/-- A further parameter. -/
theorem SignatureRead.push {hs : List Located} {signature : Signature} {comma : Located} {word : String}
    (read : SignatureRead hs signature) (some : signature.parameters ≠ [])
    (separates : comma.token = .symbol .comma) (token : t.token = .identifier word) :
    SignatureRead (hs ++ [comma] ++ [t]) (signature.push word) := by
  cases read with
  | signature head called opened parameters =>
    cases parameters with
    | none => exact absurd rfl some
    | some first more =>
      have whole := SignatureRead.signature head called opened (.some first (more.snoc separates token))
      simpa [Signature.push] using whole

/-- The brace that ends a function. -/
theorem SignatureRead.complete {hs ts : List Located} {signature : Signature}
    {closing entering : Located} {body : List StmtTree} (read : SignatureRead hs signature)
    (closed : closing.token = .symbol .rightParen) (entered : entering.token = .symbol .leftBrace)
    (derives : DerivesStmts ts body) (left : t.token = .symbol .rightBrace) :
    ∃ tree, DerivesFunction (hs ++ closing :: entering :: (ts ++ [t])) tree ∧
      tree.value = signature.complete (StmtTree.values body) t.stop := by
  cases read with
  | signature head called opened parameters =>
    exact ⟨_, .function head called opened parameters closed entered derives left, rfl⟩

/-- One more function after the others. -/
theorem DerivesProgram.snoc {ts us : List Located} {trees : List FunctionTree} {last : FunctionTree}
    (derives : DerivesProgram ts trees) (function : DerivesFunction us last) :
    DerivesProgram (ts ++ us) (trees ++ [last]) := by
  induction derives with
  | done =>
    have whole := DerivesProgram.more function .done
    rwa [List.append_nil] at whole
  | more first _ ih =>
    rw [List.append_assoc]
    exact .more first ih

/-- **One token keeps what a reading stands for.** -/
theorem ReadingRead.next? {ts : List Located} {reading reading' : Reading} (read : ReadingRead ts reading)
    (next : reading.next? t = some reading') : ReadingRead (ts ++ [t]) reading' := by
  cases read with
  | @reading ts ps trees phase derives phaseRead =>
  rw [List.append_assoc]
  unfold Reading.next? at next
  simp only at next
  split at next
  · next token =>
    cases next
    cases phaseRead with
    | between => exact .reading derives (.functionWord token)
  · next token =>
    cases next
    cases phaseRead with
    | functionWord head => exact .reading derives (.functionName head token)
  · next token =>
    cases next
    cases phaseRead with
    | functionName head called =>
      exact .reading derives (.parametersOpen (.signature head called token .none) rfl)
  · next token =>
    cases next
    cases phaseRead with
    | parametersOpen read empty =>
      exact .reading derives (.parameter (read.pushFirst empty token) (by simp [Signature.push]))
  · next token =>
    cases next
    cases phaseRead with
    | parametersOpen read _ => exact .reading derives (.parametersClosed read token)
  · next token =>
    cases next
    cases phaseRead with
    | parameter read some => exact .reading derives (.parameterComma read some token)
  · next token =>
    cases next
    cases phaseRead with
    | parameter read _ => exact .reading derives (.parametersClosed read token)
  · next token =>
    cases next
    cases phaseRead with
    | parameterComma read some comma =>
      exact .reading derives (.parameter (read.push some comma token) (by simp [Signature.push]))
  · next token =>
    cases next
    cases phaseRead with
    | parametersClosed read closed =>
      have phase := PhaseRead.body read closed token (.function .done) .statement
      refine .reading derives ?_
      simpa [StmtTree.values, Nest.extend_nil] using phase
  · cases phaseRead with
    | @body hs ns ss signature closing entering nest spot read closed entered nestRead spotRead =>
      obtain ⟨move, found, rfl⟩ := Option.map_eq_some_iff.mp next
      have moved := nestRead.next? spotRead found
      rw [List.append_assoc, List.cons_append, List.cons_append]
      generalize ns ++ ss ++ [t] = tokens at moved ⊢
      cases moved with
      | stay nestRead' spotRead' =>
        exact .reading derives (.body read closed entered nestRead' spotRead')
      | leave body left =>
        obtain ⟨tree, function, value⟩ := read.complete closed entered body left
        have whole := ReadingRead.reading (derives.snoc function) .between
        simpa [value] using whole
  · cases next

/-- **A run keeps what a reading stands for.** -/
theorem ReadingRead.after? {ts us : List Located} {reading reading' : Reading}
    (read : ReadingRead ts reading) (run : reading.after? us = some reading') :
    ReadingRead (ts ++ us) reading' := by
  induction us generalizing ts reading with
  | nil =>
    cases run
    rwa [List.append_nil]
  | cons t us ih =>
    obtain ⟨between, next, run⟩ := Option.bind_eq_some_iff.mp run
    have whole := ih (read.next? next) run
    rwa [List.append_assoc, List.singleton_append] at whole

/-- **The machine accepts only programs of the grammar, and returns the definitions of their trees.** -/
theorem derives_of_readDefinitions {tokens : List Located} {definitions : List Definition}
    (read : readDefinitions tokens = .ok definitions) :
    ∃ trees, DerivesProgram tokens trees ∧ trees.map FunctionTree.value = definitions := by
  have start : ReadingRead [] initial := .reading .done .between
  have whole := start.after? (readDefinitions_eq_ok_iff.mp read)
  rw [List.nil_append] at whole
  cases whole with
  | reading derives phaseRead =>
    cases phaseRead with
    | between => exact ⟨_, by rwa [List.append_nil], rfl⟩

end Dataflow.Grammar
