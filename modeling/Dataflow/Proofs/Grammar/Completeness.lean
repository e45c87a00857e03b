import Dataflow.Proofs.Grammar.Derivation

/-!
# The machine reads what the grammar derives

From any place where an expression is due, the machine reads the tokens of a derived expression and is
then after an operand with the value of its tree (`after?_expr`), provided the frames around it leave
operators of its level alone (`Fits`) and the next token does not bind more tightly (`Follows`). After
the last operand of a level the stack may still hold a left operand, but the next token joins it at
once; so it makes no difference to the tokens that follow whether the two have been joined
(`next?_value_congr`).

Statements, functions and programs follow in the order of their tokens (`readDefinitions_of_derives`).
-/

set_option autoImplicit false

namespace Dataflow

namespace Nest

/-- Several statements more in the innermost block. -/
def extend (more : List Stmt) : Nest → Nest
  | function statements => function (statements ++ more)
  | thenBranch line condition statements outer => thenBranch line condition (statements ++ more) outer
  | elseBranch line condition thenBody statements outer =>
    elseBranch line condition thenBody (statements ++ more) outer
  | loop line condition statements outer => loop line condition (statements ++ more) outer

theorem extend_nil (nest : Nest) : nest.extend [] = nest := by
  cases nest <;> simp [extend]

theorem extend_push (nest : Nest) (statement : Stmt) (more : List Stmt) :
    (nest.push statement).extend more = nest.extend (statement :: more) := by
  cases nest <;> simp [extend, push]

theorem push_extend (nest : Nest) (statement : Stmt) (more : List Stmt) :
    (nest.extend more).push statement = nest.extend (more ++ [statement]) := by
  cases nest <;> simp [extend, push]

end Nest

/-- Where the brace after the body of a block leads. -/
def Opener.close (outer : Nest) (body : List Stmt) : Opener → Move
  | thenBranch line condition => .stay outer (.afterThen line condition body)
  | elseBranch line condition thenBody =>
    .stay (outer.push (.ifElse line condition thenBody body)) .statement
  | loop line condition => .stay (outer.push (.loop line condition body)) .statement

theorem Opener.close_extend_enter (outer : Nest) (opener : Opener) (body : List Stmt) :
    ((opener.enter outer).extend body).close = opener.close outer body := by
  cases opener <;> rfl

namespace Reading

/-! ## Runs of the machine -/

/-- The reading after some tokens, when all of them are possible. -/
def after? : Reading → List Located → Option Reading
  | reading, [] => some reading
  | reading, t :: rest => (reading.next? t).bind (after? · rest)

theorem after?_append (reading : Reading) (ts us : List Located) :
    reading.after? (ts ++ us) = (reading.after? ts).bind (after? · us) := by
  induction ts generalizing reading with
  | nil => rfl
  | cons t rest ih =>
    rw [List.cons_append, after?, after?, Option.bind_assoc]
    exact Option.bind_congr fun next _ => ih next

theorem run_eq_ok_iff {reading final : Reading} {tokens : List Located} :
    reading.run tokens = .ok final ↔ reading.after? tokens = some final := by
  induction tokens generalizing reading with
  | nil => simp [run, after?]
  | cons t rest ih =>
    rw [run, after?]
    cases reading.next? t with
    | none => simp
    | some next => exact ih

theorem readDefinitions_eq_ok_iff {tokens : List Located} {definitions : List Definition} :
    readDefinitions tokens = .ok definitions ↔
      initial.after? tokens = some ⟨definitions, .between⟩ := by
  rw [← run_eq_ok_iff, readDefinitions]
  cases initial.run tokens with
  | error stuck => simp
  | ok reading =>
    obtain ⟨done, phase⟩ := reading
    cases phase <;> simp [finish]

/-- A reading inside a body. -/
abbrev inBody (done : List Definition) (signature : Signature) (nest : Nest) (spot : Spot) : Reading :=
  ⟨done, .body signature nest spot⟩

variable {done : List Definition} {signature : Signature} {nest nest' : Nest} {spot spot' : Spot}
  {t : Located} {rest : List Located}

/-- A token that stays inside the body is read. -/
theorem after?_of_stay (stays : spot.next? nest t = some (.stay nest' spot')) :
    (inBody done signature nest spot).after? (t :: rest) =
      (inBody done signature nest' spot').after? rest := by
  simp [after?, next?, stays, goto]

/-- Two places from which the next token leads on alike lead on alike. -/
theorem after?_congr (alike : spot.next? nest t = spot'.next? nest' t) :
    (inBody done signature nest spot).after? (t :: rest) =
      (inBody done signature nest' spot').after? (t :: rest) := by
  simp [after?, next?, alike, goto]

end Reading

/-- A token where an operand is due, by its kind. -/
theorem Spot.operand?_eq (place : OperandPlace) (frames : List Frame) (purpose : Purpose)
    (t : Located) : Spot.operand? place frames purpose t =
      match t.token with
      | .int constant => some (.complete (.int constant) frames purpose)
      | .identifier word => some (.name word frames purpose)
      | .keyword key =>
        match key with
        | .trueWord => some (.complete (.bool true) frames purpose)
        | .falseWord => some (.complete (.bool false) frames purpose)
        | _ => none
      | .symbol mark =>
        match mark with
        | .minus => some (.operand .afterOperator (.unary .minus :: frames) purpose)
        | .bang => some (.operand .afterOperator (.unary .bang :: frames) purpose)
        | .leftParen => some (.operand .start (.group :: frames) purpose)
        | .rightParen =>
          match place, frames with
          | .firstArgument, .call callee arguments :: rest =>
            some (.complete (.call callee arguments) rest purpose)
          | _, _ => none
        | _ => none := by
  unfold Spot.operand?
  generalize t.token = token
  cases token with
  | int constant => rfl
  | identifier word => rfl
  | keyword key => cases key <;> rfl
  | symbol mark => cases mark <;> rfl

namespace Grammar

open Reading

/-! ## Operators -/

/-- The machine knows the operators of every level by their tokens. -/
theorem mem_operators_iff {token : Token} {op : BinaryOp} {n : Nat} :
    (token, op) ∈ operators n ↔ BinaryOp.ofToken? token = some op ∧ op.precedence = n := by
  constructor
  · intro listed
    unfold operators at listed
    split at listed <;> simp only [List.mem_cons, List.not_mem_nil, or_false, Prod.mk.injEq] at listed
    · obtain ⟨rfl, rfl⟩ := listed
      exact ⟨rfl, rfl⟩
    · obtain ⟨rfl, rfl⟩ := listed
      exact ⟨rfl, rfl⟩
    · rcases listed with ⟨rfl, rfl⟩ | ⟨rfl, rfl⟩ <;> exact ⟨rfl, rfl⟩
    · rcases listed with ⟨rfl, rfl⟩ | ⟨rfl, rfl⟩ | ⟨rfl, rfl⟩ | ⟨rfl, rfl⟩ <;> exact ⟨rfl, rfl⟩
    · rcases listed with ⟨rfl, rfl⟩ | ⟨rfl, rfl⟩ <;> exact ⟨rfl, rfl⟩
    · rcases listed with ⟨rfl, rfl⟩ | ⟨rfl, rfl⟩ <;> exact ⟨rfl, rfl⟩
  · rintro ⟨known, rfl⟩
    unfold BinaryOp.ofToken? at known
    split at known
    case h_13 => cases known
    all_goals
      cases known
      simp [operators, BinaryOp.precedence]

/-- Minus is the tree of the prefix operator. -/
theorem minus_eq (operand : Expr) : minus operand = UnaryOp.minus.apply operand := by
  cases operand with
  | int constant =>
    have least : Int64.minValue.toInt = -9223372036854775808 := Int64.toInt_minValue
    by_cases isLeast : constant = Int64.minValue
    · have outside : Checked.neg constant = none := by
        rw [Checked.neg, Checked.ofInt?_eq_none_iff, isLeast, least, Checked.greatest]
        exact Or.inr (by decide)
      simp only [minus, if_pos isLeast, UnaryOp.apply, outside]
    · have above : constant.toInt ≠ -9223372036854775808 := fun same =>
        isLeast (Int64.toInt_inj.mp (same.trans least.symm))
      have lower := Int64.le_toInt constant
      have upper := Int64.toInt_lt constant
      have inside : Checked.neg constant = some (-constant) := by
        rw [Checked.neg, Checked.ofInt?_eq_some_iff, Int64.toInt_neg]
        exact Int.bmod_eq_of_le (by omega) (by omega)
      simp only [minus, if_neg isLeast, UnaryOp.apply, inside]
  | var _ | arith _ _ _ | bool _ | not _ | compare _ _ _ | equality _ _ _ | logic _ _ _ | call _ _ =>
    rfl

/-- The value of a prefix operator's tree. -/
theorem value_unary (op : UnaryOp) (operand : ExprTree) :
    (ExprTree.unary op operand).value = op.apply operand.value := by
  cases op with
  | minus => exact minus_eq operand.value
  | bang => rfl

/-! ## What stands around an expression -/

/-- How tightly a token binds what stands before it; one that is no operator ends an expression and
binds like the loosest operators. -/
def strength (t : Located) : Nat :=
  match BinaryOp.ofToken? t.token with
  | some op => op.precedence
  | none => 0

/-- A token that may follow an expression of a level: it does not turn a name into a call and binds at
most as tightly as the level. -/
structure Follows (n : Nat) (t : Located) : Prop where
  plain : t.token ≠ .symbol .leftParen
  loose : strength t ≤ n

theorem Follows.mono {n m : Nat} {t : Located} (follows : Follows n t) (le : n ≤ m) : Follows m t :=
  ⟨follows.plain, Nat.le_trans follows.loose le⟩

/-- An operator may follow the expressions of its level. -/
theorem follows_operator {n : Nat} {t : Located} {op : BinaryOp}
    (listed : (t.token, op) ∈ operators n) : Follows n t := by
  obtain ⟨known, level⟩ := mem_operators_iff.mp listed
  refine ⟨fun paren => ?_, ?_⟩
  · rw [paren] at known
    cases known
  · simp [strength, known, level]

/-- A token that is neither an operator nor an opening parenthesis may follow any expression. -/
theorem follows_of_closing {t : Located} (plain : t.token ≠ .symbol .leftParen)
    (closes : BinaryOp.ofToken? t.token = none) (n : Nat) : Follows n t :=
  ⟨plain, by simp [strength, closes]⟩

/-- Frames under which an expression of a level is read as a whole: the innermost operator before it
binds less tightly than the level, and prefix operators are only followed by what they apply to. -/
def Fits (n : Nat) : List Frame → Prop
  | .unary _ :: _ => 6 ≤ n
  | .binary _ op :: _ => op.precedence < n
  | _ => True

theorem Fits.mono {n m : Nat} {frames : List Frame} (fits : Fits n frames) (le : n ≤ m) :
    Fits m frames := by
  unfold Fits at fits ⊢
  split at fits
  · exact Nat.le_trans fits le
  · exact Nat.lt_of_lt_of_le fits le
  · trivial

/-- An operator of the level of an expression leaves the frames before it alone. -/
theorem reduce_of_fits {n : Nat} {frames : List Frame} (fits : Fits n frames) (operand : Expr) :
    Frame.reduce n operand frames = (operand, frames) := by
  unfold Frame.reduce
  split
  · next left op rest =>
    have looser : ¬ n ≤ op.precedence := Nat.not_le_of_lt fits
    rw [if_neg looser]
  · rfl

/-- Below the prefix operators, no frame takes an operand at once. -/
theorem absorb_of_fits {n : Nat} {frames : List Frame} (fits : Fits n frames) (binary : n < 6)
    (operand : Expr) : Frame.absorb operand frames = (operand, frames) := by
  unfold Frame.absorb
  split
  · exact absurd fits (Nat.not_le_of_lt binary)
  · rfl

/-- **What follows an operand does not see whether the operand has been joined to the left operands
that the next token joins it to.** -/
theorem next?_value_congr {nest : Nest} {left left' : Expr} {frames frames' : List Frame}
    {purpose : Purpose} {t : Located}
    (same : Frame.reduce (strength t) left frames = Frame.reduce (strength t) left' frames') :
    (Spot.value left frames purpose).next? nest t = (Spot.value left' frames' purpose).next? nest t := by
  simp only [Spot.next?, Spot.operator?]
  unfold strength at same
  cases known : BinaryOp.ofToken? t.token with
  | some op =>
    simp only [known] at same ⊢
    rw [same]
  | none =>
    simp only [known] at same ⊢
    rw [same]

/-- After a name, only an opening parenthesis makes a difference. -/
theorem next?_name {nest : Nest} {word : String} {frames : List Frame} {purpose : Purpose} {t : Located}
    (plain : t.token ≠ .symbol .leftParen) :
    (Spot.name word frames purpose).next? nest t =
      (Spot.complete (.var word) frames purpose).next? nest t := by
  simp only [Spot.next?, Spot.complete]

/-! ## Expressions -/

variable {done : List Definition} {signature : Signature} {nest : Nest} {purpose : Purpose}

/-- After an operand of a level comes an operator of the level or what follows the whole. -/
theorem exists_follows_of_operands {n : Nat} {us : List Located} {left tree : ExprTree}
    (derives : DerivesOperands n us left tree) {t : Located} (follows : Follows n t)
    (rest : List Located) : ∃ t' rest', us ++ t :: rest = t' :: rest' ∧ Follows n t' := by
  cases derives with
  | done => exact ⟨t, rest, rfl, follows⟩
  | more listed _ _ => exact ⟨_, _, rfl, follows_operator listed⟩

/-- After an argument comes a comma or the closing parenthesis. -/
theorem exists_follows_of_moreArguments {us : List Located} {arguments : List ExprTree}
    (derives : DerivesMoreArguments us arguments) {closing : Located}
    (closed : closing.token = .symbol .rightParen) (rest : List Located) :
    ∃ t' rest', us ++ closing :: rest = t' :: rest' ∧ Follows 0 t' := by
  cases derives with
  | done =>
    exact ⟨closing, rest, rfl,
      follows_of_closing (by simp [closed]) (congrArg BinaryOp.ofToken? closed) 0⟩
  | more comma _ _ =>
    exact ⟨_, _, rfl, follows_of_closing (by simp [comma]) (congrArg BinaryOp.ofToken? comma) 0⟩

/-- A closing token makes an expression inside a delimiter whole. -/
theorem next?_value_closing {operand : Expr} {frames : List Frame} {t : Located}
    (closes : BinaryOp.ofToken? t.token = none) (fits : Fits 0 frames) :
    (Spot.value operand frames purpose).next? nest t =
      Spot.close? nest operand frames purpose t := by
  simp only [Spot.next?, Spot.operator?, closes, reduce_of_fits fits]

mutual

/-- **The machine reads a derived expression.** -/
theorem after?_expr : ∀ {n : Nat} {ts : List Located} {tree : ExprTree}, DerivesExpr n ts tree →
    ∀ {place : OperandPlace} {frames : List Frame} {t : Located} {rest : List Located},
    Fits n frames → Follows n t →
    (inBody done signature nest (.operand place frames purpose)).after? (ts ++ t :: rest) =
      (inBody done signature nest (.complete tree.value frames purpose)).after? (t :: rest)
  | _, _, _, .int token, _, _, _, _, _, _ => by
    refine after?_of_stay ?_
    simp [Spot.next?, Spot.operand?_eq, token, ExprTree.value]
  | _, _, _, .yes token, _, _, _, _, _, _ => by
    refine after?_of_stay ?_
    simp [Spot.next?, Spot.operand?_eq, token, ExprTree.value]
  | _, _, _, .no token, _, _, _, _, _, _ => by
    refine after?_of_stay ?_
    simp [Spot.next?, Spot.operand?_eq, token, ExprTree.value]
  | _, _, _, .name token, place, frames, t, rest, _, follows => by
    refine (after?_of_stay ?_).trans (after?_congr (next?_name follows.plain))
    simp [Spot.next?, Spot.operand?_eq, token]
  | _, _, _, @DerivesExpr.call _ opening closing word ts arguments token opened derives closed, place,
      frames, t, rest, _, _ => by
    calc
      _ = (inBody done signature nest (.name word frames purpose)).after?
          (opening :: (ts ++ closing :: t :: rest)) := by
        rw [List.cons_append, List.cons_append, List.append_assoc, List.singleton_append]
        refine after?_of_stay ?_
        simp [Spot.next?, Spot.operand?_eq, token]
      _ = (inBody done signature nest
            (.operand .firstArgument (.call word [] :: frames) purpose)).after?
          (ts ++ closing :: t :: rest) := by
        refine after?_of_stay ?_
        simp [Spot.next?, opened]
      _ = _ := after?_arguments derives closed
  | _, _, _, @DerivesExpr.group opening closing ts tree opened derives closed, place, frames, t, rest,
      _, _ => by
    -- Inside the parentheses any level is read, and the closing one ends it.
    have closes : BinaryOp.ofToken? closing.token = none := congrArg BinaryOp.ofToken? closed
    have inner : Fits 0 (.group :: frames) := trivial
    calc
      _ = (inBody done signature nest (.operand .start (.group :: frames) purpose)).after?
          (ts ++ closing :: t :: rest) := by
        rw [List.cons_append, List.append_assoc, List.singleton_append]
        refine after?_of_stay ?_
        simp [Spot.next?, Spot.operand?_eq, opened]
      _ = (inBody done signature nest (.value tree.value (.group :: frames) purpose)).after?
          (closing :: t :: rest) :=
        after?_expr derives inner (follows_of_closing (by simp [closed]) closes 0)
      _ = _ := by
        refine after?_of_stay ?_
        rw [next?_value_closing closes inner]
        simp [Spot.close?, closed, ExprTree.value]
  | _, _, _, .atom derives, _, _, _, _, fits, follows =>
    after?_expr derives (fits.mono (by omega)) (follows.mono (by omega))
  | _, _, _, @DerivesExpr.unary u op ts operand listed derives, place, frames, t, rest, fits,
      follows => by
    have inner : Fits 6 (.unary op :: frames) := Nat.le_refl 6
    calc
      _ = (inBody done signature nest
            (.operand .afterOperator (.unary op :: frames) purpose)).after? (ts ++ t :: rest) := by
        refine after?_of_stay ?_
        simp only [prefixes, List.mem_cons, List.not_mem_nil, or_false, Prod.mk.injEq] at listed
        rcases listed with ⟨token, rfl⟩ | ⟨token, rfl⟩ <;> simp [Spot.next?, Spot.operand?_eq, token]
      _ = (inBody done signature nest
            (.complete operand.value (.unary op :: frames) purpose)).after? (t :: rest) :=
        after?_expr derives inner follows
      _ = _ := by
        -- The operator takes its operand at once.
        rw [Spot.complete, Frame.absorb, ← value_unary, ← Spot.complete]
  | n, _, _, .chain binary first operands, place, frames, t, rest, fits, follows => by
    -- The first operand is of the next level, so what follows it need only not bind more tightly
    -- than that: an operator of this level may follow.
    obtain ⟨t', rest', split, follows'⟩ := exists_follows_of_operands operands follows rest
    rw [List.append_assoc, split, after?_expr first (fits.mono (by omega)) (follows'.mono (by omega)),
      ← split, Spot.complete, Spot.complete, absorb_of_fits fits binary, absorb_of_fits fits binary]
    exact after?_operands operands binary fits follows

/-- The machine reads the operands that follow the first one of a level. -/
theorem after?_operands : ∀ {n : Nat} {us : List Located} {left tree : ExprTree},
    DerivesOperands n us left tree →
    ∀ {frames : List Frame} {t : Located} {rest : List Located}, n < 6 → Fits n frames →
    Follows n t →
    (inBody done signature nest (.value left.value frames purpose)).after? (us ++ t :: rest) =
      (inBody done signature nest (.value tree.value frames purpose)).after? (t :: rest)
  | _, _, _, _, .done, _, _, _, _, _, _ => rfl
  | n, _, left, _, @DerivesOperands.more _ u op ts us _ right tree listed derives operands, frames,
      t, rest, binary, fits, follows => by
    obtain ⟨known, level⟩ := mem_operators_iff.mp listed
    -- The right operand is read first, up to the next operator of the level or the end.
    obtain ⟨t', rest', split, follows'⟩ := exists_follows_of_operands operands follows rest
    have inner : Fits (n + 1) (.binary left.value op :: frames) := Nat.lt_succ_of_le (Nat.le_of_eq level)
    calc
      _ = (inBody done signature nest
            (.operand .afterOperator (.binary left.value op :: frames) purpose)).after?
          (ts ++ t' :: rest') := by
        rw [List.cons_append, List.append_assoc, split]
        refine after?_of_stay ?_
        simp only [Spot.next?, Spot.operator?, known, level, reduce_of_fits fits]
      _ = (inBody done signature nest
            (.value right.value (.binary left.value op :: frames) purpose)).after?
          (t' :: rest') :=
        after?_expr derives inner (follows'.mono (Nat.le_succ _))
      _ = (inBody done signature nest
            (.value (op.apply left.value right.value) frames purpose)).after? (t' :: rest') := by
        -- The next token joins the two operands.
        refine after?_congr (next?_value_congr ?_)
        rw [Frame.reduce, if_pos (level ▸ follows'.loose)]
      _ = _ := by
        rw [← split]
        exact after?_operands operands binary fits follows

/-- The machine reads the arguments of a call and its closing parenthesis. -/
theorem after?_arguments : ∀ {ts : List Located} {arguments : List ExprTree},
    DerivesArguments ts arguments →
    ∀ {word : String} {frames : List Frame} {closing : Located} {rest : List Located},
    closing.token = .symbol .rightParen →
    (inBody done signature nest (.operand .firstArgument (.call word [] :: frames) purpose)).after?
        (ts ++ closing :: rest) =
      (inBody done signature nest
        (.complete (.call word (ExprTree.values arguments)) frames purpose)).after? rest
  | _, _, .none, _, _, _, _, closed => by
    refine after?_of_stay ?_
    simp [Spot.next?, Spot.operand?_eq, closed, ExprTree.values]
  | _, _, @DerivesArguments.some ts us first arguments derives more, word, frames, closing, rest,
      closed => by
    obtain ⟨t', rest', split, follows⟩ := exists_follows_of_moreArguments more closed rest
    have inner : Fits 0 (.call word [] :: frames) := trivial
    rw [List.append_assoc, split, after?_expr derives inner follows, ← split]
    exact after?_moreArguments more closed

/-- The machine reads the arguments that follow the first one. -/
theorem after?_moreArguments : ∀ {us : List Located} {arguments : List ExprTree},
    DerivesMoreArguments us arguments →
    ∀ {word : String} {before : List Expr} {last : Expr} {frames : List Frame} {closing : Located}
      {rest : List Located}, closing.token = .symbol .rightParen →
    (inBody done signature nest (.value last (.call word before :: frames) purpose)).after?
        (us ++ closing :: rest) =
      (inBody done signature nest
        (.complete (.call word (before ++ last :: ExprTree.values arguments)) frames
          purpose)).after? rest
  | _, _, .done, word, before, _, frames, _, _, closed => by
    have inner : Fits 0 (.call word before :: frames) := trivial
    refine after?_of_stay ?_
    rw [next?_value_closing (congrArg BinaryOp.ofToken? closed) inner]
    simp [Spot.close?, closed, ExprTree.values]
  | _, _, @DerivesMoreArguments.more u ts us first arguments comma derives more, word, before, last,
      frames, closing, rest, closed => by
    obtain ⟨t', rest', split, follows⟩ := exists_follows_of_moreArguments more closed rest
    have outer : Fits 0 (.call word before :: frames) := trivial
    have inner : Fits 0 (.call word (before ++ [last]) :: frames) := trivial
    calc
      _ = (inBody done signature nest
            (.operand .start (.call word (before ++ [last]) :: frames) purpose)).after?
          (ts ++ t' :: rest') := by
        rw [List.cons_append, List.append_assoc, split]
        refine after?_of_stay ?_
        rw [next?_value_closing (congrArg BinaryOp.ofToken? comma) outer]
        simp [Spot.close?, comma]
      _ = (inBody done signature nest
            (.value first.value (.call word (before ++ [last]) :: frames) purpose)).after?
          (us ++ closing :: rest) := by
        rw [split]
        exact after?_expr derives inner follows
      _ = _ := by
        rw [after?_moreArguments more closed, List.append_assoc, List.singleton_append,
          ExprTree.values]

end

/-- The machine reads a whole expression and the token that ends it. -/
theorem after?_whole {ts : List Located} {tree : ExprTree} (derives : DerivesExpr 0 ts tree)
    {t : Located} {rest : List Located} {nest' : Nest} {spot' : Spot}
    (plain : t.token ≠ .symbol .leftParen) (closes : BinaryOp.ofToken? t.token = none)
    (ends : Spot.finish? nest tree.value purpose t = some (.stay nest' spot')) :
    (inBody done signature nest (.operand .start [] purpose)).after? (ts ++ t :: rest) =
      (inBody done signature nest' spot').after? rest := by
  have outermost : Fits 0 [] := trivial
  rw [after?_expr derives outermost (follows_of_closing plain closes 0)]
  refine after?_of_stay ?_
  rw [Spot.complete, Frame.absorb, next?_value_closing closes outermost, Spot.close?, ends]
  simp

/-! ## Statements -/

/-- The machine reads the guard of a branch or a loop. -/
theorem after?_guard {gs : List Located} {condition : ExprTree} (derives : DerivesGuard gs condition)
    {opener : Opener} {rest : List Located}
    (opens : ∀ closing : Located, closing.token = .symbol .rightParen →
      Spot.finish? nest condition.value purpose closing = some (.stay nest (.opening opener))) :
    (inBody done signature nest (.guard purpose)).after? (gs ++ rest) =
      (inBody done signature nest (.opening opener)).after? rest := by
  cases derives with
  | @guard opening closing ts _ opened derives closed =>
    have enters : (Spot.guard purpose).next? nest opening =
        some (.stay nest (.operand .start [] purpose)) := by
      simp [Spot.next?, opened]
    rw [List.cons_append, List.append_assoc, List.singleton_append, after?_of_stay enters]
    exact after?_whole derives (by simp [closed]) (congrArg BinaryOp.ofToken? closed)
      (opens closing closed)

/-- No statement starts with `else`. -/
theorem exists_ne_else_of_stmts {us : List Located} {body : List StmtTree}
    (derives : DerivesStmts us body) {t : Located} (other : t.token ≠ .keyword .elseWord)
    (rest : List Located) :
    ∃ t' rest', us ++ t :: rest = t' :: rest' ∧ t'.token ≠ .keyword .elseWord := by
  cases derives with
  | done => exact ⟨t, rest, rfl, other⟩
  | more first _ =>
    cases first with
    | assign token | ifThen token | ifElse token | loop token | ret token =>
      exact ⟨_, _, rfl, by simp [token]⟩

mutual

/-- **The machine reads a derived statement.** -/
theorem after?_stmt : ∀ {ts : List Located} {tree : StmtTree}, DerivesStmt ts tree →
    ∀ {nest : Nest} {t : Located} {rest : List Located}, t.token ≠ .keyword .elseWord →
    (inBody done signature nest .statement).after? (ts ++ t :: rest) =
      (inBody done signature (nest.push tree.value) .statement).after? (t :: rest)
  | _, _, @DerivesStmt.assign u equals stop word ts tree token equal derives stops, nest, t, rest, _ => by
    calc
      _ = (inBody done signature nest (.target u.line word)).after?
          (equals :: (ts ++ stop :: t :: rest)) := by
        rw [List.cons_append, List.cons_append, List.append_assoc, List.singleton_append]
        refine after?_of_stay ?_
        simp [Spot.next?, Spot.begin?, token]
      _ = (inBody done signature nest (.operand .start [] (.assign u.line word))).after?
          (ts ++ stop :: t :: rest) := by
        refine after?_of_stay ?_
        simp [Spot.next?, equal]
      _ = _ := by
        refine after?_whole derives (by simp [stops]) (congrArg BinaryOp.ofToken? stops) ?_
        simp [Spot.finish?, stops, StmtTree.value]
  | _, _, @DerivesStmt.ifThen u gs bs condition body token guarded block, nest, t, rest, other => by
    calc
      _ = (inBody done signature nest (.guard (.branch u.line))).after? (gs ++ (bs ++ t :: rest)) := by
        rw [List.cons_append, List.append_assoc]
        refine after?_of_stay ?_
        simp [Spot.next?, Spot.begin?, token]
      _ = (inBody done signature nest (.opening (.thenBranch u.line condition.value))).after?
          (bs ++ t :: rest) := by
        refine after?_guard guarded fun closing closed => ?_
        simp [Spot.finish?, closed]
      _ = (inBody done signature nest
            (.afterThen u.line condition.value (StmtTree.values body))).after? (t :: rest) :=
        after?_block block rfl
      _ = _ := by
        -- A token other than `else` ends the branch and starts the next statement at once.
        refine after?_congr ?_
        simp [Spot.next?, StmtTree.value]
  | _, _, @DerivesStmt.ifElse u otherwise gs bs cs condition thenBody elseBody token guarded block
      alternative elseBlock, nest, t, rest, _ => by
    calc
      _ = (inBody done signature nest (.guard (.branch u.line))).after?
          (gs ++ (bs ++ otherwise :: (cs ++ t :: rest))) := by
        rw [List.cons_append, List.append_assoc, List.append_assoc, List.cons_append]
        refine after?_of_stay ?_
        simp [Spot.next?, Spot.begin?, token]
      _ = (inBody done signature nest (.opening (.thenBranch u.line condition.value))).after?
          (bs ++ otherwise :: (cs ++ t :: rest)) := by
        refine after?_guard guarded fun closing closed => ?_
        simp [Spot.finish?, closed]
      _ = (inBody done signature nest
            (.afterThen u.line condition.value (StmtTree.values thenBody))).after?
          (otherwise :: (cs ++ t :: rest)) :=
        after?_block block rfl
      _ = (inBody done signature nest
            (.opening (.elseBranch u.line condition.value (StmtTree.values thenBody)))).after?
          (cs ++ t :: rest) := by
        refine after?_of_stay ?_
        simp [Spot.next?, alternative]
      _ = _ := after?_block elseBlock rfl
  | _, _, @DerivesStmt.loop u gs bs condition body token guarded block, nest, t, rest, _ => by
    calc
      _ = (inBody done signature nest (.guard (.loop u.line))).after? (gs ++ (bs ++ t :: rest)) := by
        rw [List.cons_append, List.append_assoc]
        refine after?_of_stay ?_
        simp [Spot.next?, Spot.begin?, token]
      _ = (inBody done signature nest (.opening (.loop u.line condition.value))).after?
          (bs ++ t :: rest) := by
        refine after?_guard guarded fun closing closed => ?_
        simp [Spot.finish?, closed]
      _ = _ := after?_block block rfl
  | _, _, @DerivesStmt.ret u stop ts tree token derives stops, nest, t, rest, _ => by
    calc
      _ = (inBody done signature nest (.operand .start [] (.ret u.line))).after?
          (ts ++ stop :: t :: rest) := by
        rw [List.cons_append, List.append_assoc, List.singleton_append]
        refine after?_of_stay ?_
        simp [Spot.next?, Spot.begin?, token]
      _ = _ := by
        refine after?_whole derives (by simp [stops]) (congrArg BinaryOp.ofToken? stops) ?_
        simp [Spot.finish?, stops, StmtTree.value]

/-- The machine reads a derived block. -/
theorem after?_block : ∀ {bs : List Located} {body : List StmtTree}, DerivesBlock bs body →
    ∀ {nest nest' : Nest} {opener : Opener} {spot' : Spot} {rest : List Located},
    opener.close nest (StmtTree.values body) = .stay nest' spot' →
    (inBody done signature nest (.opening opener)).after? (bs ++ rest) =
      (inBody done signature nest' spot').after? rest
  | _, _, @DerivesBlock.block opening closing ts body opened derives closed, nest, nest', opener, spot',
      rest, closes => by
    calc
      _ = (inBody done signature (opener.enter nest) .statement).after? (ts ++ closing :: rest) := by
        rw [List.cons_append, List.append_assoc, List.singleton_append]
        refine after?_of_stay ?_
        simp [Spot.next?, opened]
      _ = (inBody done signature ((opener.enter nest).extend (StmtTree.values body)) .statement).after?
          (closing :: rest) := after?_stmts derives (by simp [closed])
      _ = _ := by
        refine after?_of_stay ?_
        simp [Spot.next?, Spot.begin?, closed, Opener.close_extend_enter, closes]

/-- The machine reads derived statements. -/
theorem after?_stmts : ∀ {ts : List Located} {body : List StmtTree}, DerivesStmts ts body →
    ∀ {nest : Nest} {t : Located} {rest : List Located}, t.token ≠ .keyword .elseWord →
    (inBody done signature nest .statement).after? (ts ++ t :: rest) =
      (inBody done signature (nest.extend (StmtTree.values body)) .statement).after? (t :: rest)
  | _, _, .done, nest, _, _, _ => by
    rw [StmtTree.values, Nest.extend_nil]
    rfl
  | _, _, .more first more, nest, t, rest, other => by
    obtain ⟨t', rest', split, other'⟩ := exists_ne_else_of_stmts more other rest
    rw [List.append_assoc, split, after?_stmt first other', ← split, after?_stmts more other,
      Nest.extend_push, StmtTree.values]

end

/-! ## Programs -/

/-- The machine reads the parameters that follow the first one. -/
theorem after?_moreParameters {ps : List Located} {parameters : List String}
    (derives : DerivesMoreParameters ps parameters) {closing : Located}
    (closed : closing.token = .symbol .rightParen) (rest : List Located) (signature : Signature) :
    (⟨done, .parameter signature⟩ : Reading).after? (ps ++ closing :: rest) =
      (⟨done, .parametersClosed
        { signature with parameters := signature.parameters ++ parameters }⟩ : Reading).after? rest := by
  induction derives generalizing signature with
  | done => simp [after?, next?, goto, closed]
  | more comma token _ ih => simp [after?, next?, goto, comma, token, ih, Signature.push]

/-- The machine reads the parameters of a function. -/
theorem after?_parameters {ps : List Located} {parameters : List String}
    (derives : DerivesParameters ps parameters) {closing : Located}
    (closed : closing.token = .symbol .rightParen) (rest : List Located) (signature : Signature) :
    (⟨done, .parametersOpen signature⟩ : Reading).after? (ps ++ closing :: rest) =
      (⟨done, .parametersClosed
        { signature with parameters := signature.parameters ++ parameters }⟩ : Reading).after? rest := by
  cases derives with
  | none => simp [after?, next?, goto, closed]
  | some token more =>
    simp [after?, next?, goto, token, after?_moreParameters more closed, Signature.push]

/-- **The machine reads a derived function.** -/
theorem after?_function {ts : List Located} {tree : FunctionTree} (derives : DerivesFunction ts tree)
    (rest : List Located) :
    (⟨done, .between⟩ : Reading).after? (ts ++ rest) =
      (⟨done ++ [tree.value], .between⟩ : Reading).after? rest := by
  cases derives with
  | @function t called opening closing entering leaving word ps ts parameters body token name opened
      derivesParameters closed entered derivesBody left =>
    have leaves : (Spot.statement).next? ((Nest.function []).extend (StmtTree.values body)) leaving =
        some (.leave (StmtTree.values body)) := by
      simp [Spot.next?, Spot.begin?, left, Nest.extend, Nest.close]
    calc
      _ = (⟨done, .parametersOpen ⟨t.line, t.start, word, []⟩⟩ : Reading).after?
          (ps ++ closing :: entering :: (ts ++ leaving :: rest)) := by
        simp [after?, next?, goto, token, name, opened]
      _ = (inBody done ⟨t.line, t.start, word, parameters⟩ (.function []) .statement).after?
          (ts ++ leaving :: rest) := by
        rw [after?_parameters derivesParameters closed]
        simp [after?, next?, goto, entered]
      _ = (inBody done ⟨t.line, t.start, word, parameters⟩
            ((Nest.function []).extend (StmtTree.values body)) .statement).after?
          (leaving :: rest) := after?_stmts derivesBody (by simp [left])
      _ = _ := by
        simp [after?, next?, leaves, Signature.complete, FunctionTree.value]

/-- The machine reads derived functions. -/
theorem after?_program {ts : List Located} {trees : List FunctionTree}
    (derives : DerivesProgram ts trees) (done : List Definition) :
    (⟨done, .between⟩ : Reading).after? ts =
      some ⟨done ++ trees.map FunctionTree.value, .between⟩ := by
  induction derives generalizing done with
  | done => simp [after?]
  | more first _ ih => rw [after?_function first, ih, List.append_assoc, List.map_cons]; rfl

/-- **The machine accepts every program of the grammar, with the definitions of its trees.** -/
theorem readDefinitions_of_derives {tokens : List Located} {trees : List FunctionTree}
    (derives : DerivesProgram tokens trees) :
    readDefinitions tokens = .ok (trees.map FunctionTree.value) :=
  readDefinitions_eq_ok_iff.mpr (after?_program derives [])

end Grammar

end Dataflow
