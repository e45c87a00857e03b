import Dataflow.Proofs.Grammar.Unambiguity
import Dataflow.Proofs.Print.Statements
import Dataflow.Proofs.Program.Collect

/-!
# Parsing undoes printing

A function whose parts can be printed is read back from its text (`parseSingle_render`): with the same
name, parameters, variables and statements, on lines that ascend, and with the same text. Every function
that a text is read as can be printed (`isPrintable_of_parse`), since its names and numbers are those of
tokens.
-/

set_option autoImplicit false

namespace Dataflow

open Grammar

/-- Functions whose names are names, whose parameters are distinct and whose statements can be
printed. -/
def FunctionDef.isPrintable (f : FunctionDef) : Bool :=
  Text.isName f.name && f.parameters.all Text.isName && decide f.parameters.Nodup &&
    Stmt.arePrintable f.body

/-! ## What does not depend on lines -/

mutual

theorem Stmt.mentions_withoutLines : ∀ s : Stmt, s.withoutLines.mentions = s.mentions
  | .assign _ _ _ => rfl
  | .ifElse _ _ thenBody elseBody => by
    simp [Stmt.withoutLines, Stmt.mentions, mentionsAll_allWithoutLines thenBody,
      mentionsAll_allWithoutLines elseBody]
  | .loop _ _ body => by
    simp [Stmt.withoutLines, Stmt.mentions, mentionsAll_allWithoutLines body]
  | .ret _ _ => rfl

theorem Stmt.mentionsAll_allWithoutLines : ∀ body : List Stmt,
    Stmt.mentionsAll (Stmt.allWithoutLines body) = Stmt.mentionsAll body
  | [] => rfl
  | s :: rest => by
    simp [Stmt.allWithoutLines, Stmt.mentionsAll, mentions_withoutLines s,
      mentionsAll_allWithoutLines rest]

end

mutual

theorem Stmt.renderAt_withoutLines : ∀ (s : Stmt) (depth : Nat),
    s.withoutLines.renderAt depth = s.renderAt depth
  | .assign _ _ _, _ => rfl
  | .ifElse _ condition thenBody [], depth => by
    simp [Stmt.withoutLines, Stmt.allWithoutLines, Stmt.renderAt, Stmt.header,
      renderAllAt_allWithoutLines thenBody]
  | .ifElse _ condition thenBody (s :: rest), depth => by
    have second := renderAllAt_allWithoutLines (s :: rest) (depth + 1)
    simp only [Stmt.allWithoutLines] at second
    simp [Stmt.withoutLines, Stmt.allWithoutLines, Stmt.renderAt, Stmt.header,
      renderAllAt_allWithoutLines thenBody, second]
  | .loop _ _ body, depth => by
    simp [Stmt.withoutLines, Stmt.renderAt, Stmt.header, renderAllAt_allWithoutLines body]
  | .ret _ _, _ => rfl

theorem Stmt.renderAllAt_allWithoutLines : ∀ (body : List Stmt) (depth : Nat),
    Stmt.renderAllAt depth (Stmt.allWithoutLines body) = Stmt.renderAllAt depth body
  | [], _ => rfl
  | s :: rest, depth => by
    simp [Stmt.allWithoutLines, Stmt.renderAllAt, renderAt_withoutLines s depth,
      renderAllAt_allWithoutLines rest depth]

end

theorem variablesOf_congr {parameters : List String} {body body' : List Stmt}
    (same : Stmt.allWithoutLines body = Stmt.allWithoutLines body') :
    FunctionDef.variablesOf parameters body = FunctionDef.variablesOf parameters body' := by
  rw [FunctionDef.variablesOf, ← Stmt.mentionsAll_allWithoutLines body, same,
    Stmt.mentionsAll_allWithoutLines, FunctionDef.variablesOf]

theorem renderAllAt_congr {body body' : List Stmt} (depth : Nat)
    (same : Stmt.allWithoutLines body = Stmt.allWithoutLines body') :
    Stmt.renderAllAt depth body = Stmt.renderAllAt depth body' := by
  rw [← Stmt.renderAllAt_allWithoutLines body, same, Stmt.renderAllAt_allWithoutLines]

/-! ## Reading a printed function -/

/-- The parameters after the first. -/
theorem reads_moreParameters {parameters : List String} (names : parameters.all Text.isName = true)
    (pre rest : List Char) :
    ∃ ts, Reads (')' :: rest) pre (moreWords parameters) ts ∧ DerivesMoreParameters ts parameters := by
  induction parameters generalizing pre with
  | nil => exact ⟨[], .nil, .done⟩
  | cons word parameters ih =>
    simp only [List.all_cons, Bool.and_eq_true] at names
    obtain ⟨ts, reads, derives⟩ := ih names.2 (pre ++ [','] ++ [' '] ++ word.toList)
    have wordRead := reads_name names.1 (pre ++ [','] ++ [' ']) (stops_moreWords parameters rest)
    have whole := (reads_comma pre _).append ((reads_blank _ _).append (wordRead.append reads))
    exact ⟨_ :: _ :: ts, whole, .more rfl rfl derives⟩

/-- The parameters of a function. -/
theorem reads_parameters {parameters : List String} (names : parameters.all Text.isName = true)
    (pre rest : List Char) :
    ∃ ts, Reads (')' :: rest) pre (", ".intercalate parameters).toList ts ∧
      DerivesParameters ts parameters := by
  cases parameters with
  | nil => exact ⟨[], .nil, .none⟩
  | cons word parameters =>
    simp only [List.all_cons, Bool.and_eq_true] at names
    obtain ⟨ts, reads, derives⟩ := reads_moreParameters names.2 (pre ++ word.toList) rest
    have wordRead := reads_name names.1 pre (stops_moreWords parameters rest)
    rw [toList_intercalate_cons]
    exact ⟨_ :: ts, wordRead.append reads, .some rfl derives⟩

/-- **A printed function is read as tokens that derive it up to its lines, which ascend.** -/
theorem reads_function {f : FunctionDef} (printable : f.isPrintable = true) : ∃ ts tree,
    Reads [] [] f.render.toList ts ∧ DerivesFunction ts tree ∧ tree.name = f.name ∧
      tree.parameters = f.parameters ∧
      Stmt.allWithoutLines (StmtTree.values tree.body) = Stmt.allWithoutLines f.body ∧
      (Stmt.linesIn (StmtTree.values tree.body)).Pairwise (· < ·) := by
  simp only [FunctionDef.isPrintable, Bool.and_eq_true] at printable
  obtain ⟨⟨⟨name, names⟩, distinct⟩, body⟩ := printable
  -- The texts before each token, in order: every token is placed by what stands before it.
  let word := Keyword.function.text.toList
  let parametersText := (", ".intercalate f.parameters).toList
  let bodyText := (Stmt.renderAllAt 1 f.body).toList
  let closed := [] ++ word ++ [' '] ++ f.name.toList ++ ['('] ++ parametersText
  let entered := closed ++ [')'] ++ [' '] ++ ['\x7b'] ++ ['\n']
  obtain ⟨ps, parametersRead, parameters⟩ :=
    reads_parameters names ([] ++ word ++ [' '] ++ f.name.toList ++ ['('])
      ([' '] ++ (['\x7b'] ++ (['\n'] ++ (bodyText ++ ['\x7d']))) ++ [])
  obtain ⟨ts, trees, bodyRead, derives, same, ascends⟩ :=
    printedAllAs_renderAllAt body 1 entered ['\x7d']
  let t := tokenAt [] (.keyword .function) word
  let called := tokenAt ([] ++ word ++ [' ']) (.identifier f.name) f.name.toList
  let opening := tokenAt ([] ++ word ++ [' '] ++ f.name.toList) (.symbol .leftParen) ['(']
  let closing := tokenAt closed (.symbol .rightParen) [')']
  let entering := tokenAt (closed ++ [')'] ++ [' ']) (.symbol .leftBrace) ['\x7b']
  let leaving := tokenAt (entered ++ bodyText) (.symbol .rightBrace) ['\x7d']
  have nameRead (rest : List Char) : Reads ('(' :: rest) ([] ++ word ++ [' ']) f.name.toList [called] :=
    reads_name name _ (stops_cons (by decide) rest)
  have bodyEnd : Reads [] (closed ++ [')'] ++ [' ']) (['\x7b'] ++ (['\n'] ++ (bodyText ++ ['\x7d'])))
      (entering :: (ts ++ [leaving])) :=
    (reads_mark (fun _ => rfl) _ _).append ((reads_newline _ _).append
      (bodyRead.append (reads_mark (fun _ => rfl) _ [])))
  have whole : Reads [] [] (word ++ ([' '] ++ (f.name.toList ++ (['('] ++ (parametersText ++ ([')'] ++
      ([' '] ++ (['\x7b'] ++ (['\n'] ++ (bodyText ++ ['\x7d']))))))))))
      (t :: called :: opening :: (ps ++ closing :: entering :: (ts ++ [leaving]))) :=
    (reads_keyword .function [] _).append ((reads_blank _ _).append ((nameRead _).append
      ((reads_leftParen _ _).append (parametersRead.append ((reads_rightParen _ _).append
        ((reads_blank _ _).append bodyEnd))))))
  have text : f.render.toList = word ++ ([' '] ++ (f.name.toList ++ (['('] ++ (parametersText ++
      ([')'] ++ ([' '] ++ (['\x7b'] ++ (['\n'] ++ (bodyText ++ ['\x7d']))))))))) := by
    simp only [FunctionDef.render, String.toList_append, List.append_assoc]
    rfl
  rw [text]
  exact ⟨_, _, whole, .function rfl rfl rfl parameters rfl rfl derives rfl, rfl, rfl, same, ascends.1⟩

/-! ## Parsing a printed function -/

/-- A text whose tokens are one function is parsed as it. -/
theorem parseSingle_of_derives {text : String} {tree : FunctionTree}
    (readable : (readTokens text.toList).find? (·.value.isNone) = none)
    (derives : DerivesFunction (Program.locate (.ofText text.toList) (readTokens text.toList)) tree)
    (distinct : tree.parameters.Nodup) :
    Program.parseSingle text = .ok (Program.toFunction text.toList tree.value) := by
  have read : readDefinitions (Program.locate (.ofText text.toList) (readTokens text.toList)) =
      .ok [tree.value] := by
    have program := DerivesProgram.more derives .done
    rw [List.append_nil] at program
    exact readDefinitions_of_derives program
  have alone : Program.Distinct [tree.value] := ⟨by simp, by simpa [FunctionTree.value] using distinct⟩
  have parsed : Program.parse text = .ok [Program.toFunction text.toList tree.value] := by
    simp only [Program.parse, Program.parseText, readable, read]
    exact Program.collect_eq_ok_iff.mpr ⟨alone, rfl⟩
  simp only [Program.parseSingle, parsed]

/-- **Parsing undoes printing.** -/
theorem parseSingle_render {f : FunctionDef} (printable : f.isPrintable = true) :
    ∃ g, Program.parseSingle f.render = .ok g ∧ g.name = f.name ∧ g.parameters = f.parameters ∧
      g.variableSet = FunctionDef.variablesOf f.parameters f.body ∧
      Stmt.allWithoutLines g.body = Stmt.allWithoutLines f.body ∧
      (Stmt.linesIn g.body).Pairwise (· < ·) ∧ g.render = f.render := by
  obtain ⟨ts, tree, reads, derives, name, parameters, same, ascends⟩ := reads_function printable
  obtain ⟨located, readable⟩ := reads.readTokens
  have distinct : tree.parameters.Nodup := by
    simp only [FunctionDef.isPrintable, Bool.and_eq_true, decide_eq_true_eq] at printable
    rw [parameters]
    exact printable.1.2
  refine ⟨Program.toFunction f.render.toList tree.value,
    parseSingle_of_derives readable (located ▸ derives) distinct, name, parameters, ?_, same, ascends, ?_⟩
  · rw [← parameters]
    exact variablesOf_congr same
  · have bodies := renderAllAt_congr 1 same
    simp only [FunctionDef.render, Program.toFunction, FunctionDef.make, FunctionTree.value, name,
      parameters, bodies]

/-! ## Every parsed function can be printed -/

/-- Every one of the tokens can be spelled. -/
def AllSpelled (ts : List Located) : Prop := ∀ t ∈ ts, Lexeme.isSpelled t.token = true

theorem allSpelled_cons {t : Located} {ts : List Located} :
    AllSpelled (t :: ts) ↔ Lexeme.isSpelled t.token = true ∧ AllSpelled ts :=
  List.forall_mem_cons

theorem allSpelled_append {ts us : List Located} :
    AllSpelled (ts ++ us) ↔ AllSpelled ts ∧ AllSpelled us :=
  List.forall_mem_append

theorem isPrintable_of_spelled {t : Located} {constant : Int64} (token : t.token = .int constant)
    (spelled : Lexeme.isSpelled t.token = true) : (Expr.int constant).isPrintable = true := by
  rw [token, Lexeme.isSpelled, decide_eq_true_eq] at spelled
  rw [Expr.isPrintable, decide_eq_true_eq]
  rintro rfl
  exact absurd spelled (by decide)

theorem isName_of_spelled {t : Located} {word : String} (token : t.token = .identifier word)
    (spelled : Lexeme.isSpelled t.token = true) : Text.isName word = true := by
  rwa [token] at spelled

/-- Minus never makes the least word from another one. -/
theorem isPrintable_minus {e : Expr} (printable : e.isPrintable = true) :
    (minus e).isPrintable = true := by
  cases e with
  | int constant =>
    rw [Expr.isPrintable, decide_eq_true_eq] at printable
    rw [minus, if_neg printable, Expr.isPrintable, decide_eq_true_eq]
    -- The least word is its own negation, so only it is negated to it.
    intro least
    have negated : constant = -Int64.minValue := by rw [← least, Int64.neg_neg]
    exact printable negated
  | var _ | arith _ _ _ | bool _ | not _ | compare _ _ _ | equality _ _ _ | logic _ _ _ | call _ _ =>
    rw [minus, Expr.isPrintable, printable]
    · rfl
    · simp

theorem isPrintable_apply {op : BinaryOp} {left right : Expr} (printable : left.isPrintable = true)
    (printable' : right.isPrintable = true) : (op.apply left right).isPrintable = true := by
  cases op <;> simp [BinaryOp.apply, Expr.isPrintable, printable, printable']

mutual

/-- An expression of tokens that can be spelled can be printed. -/
theorem isPrintable_of_derivesExpr : ∀ {n : Nat} {ts : List Located} {tree : ExprTree},
    DerivesExpr n ts tree → AllSpelled ts → tree.value.isPrintable = true
  | _, _, _, .int token, spelled => isPrintable_of_spelled token (allSpelled_cons.mp spelled).1
  | _, _, _, .yes _, _ => rfl
  | _, _, _, .no _, _ => rfl
  | _, _, _, .name token, spelled => isName_of_spelled token (allSpelled_cons.mp spelled).1
  | _, _, _, .call token _ arguments _, spelled => by
    simp only [allSpelled_cons, allSpelled_append] at spelled
    simp only [ExprTree.value, Expr.isPrintable, isName_of_spelled token spelled.1,
      arePrintable_of_derivesArguments arguments spelled.2.2.1, Bool.and_self]
  | _, _, _, .group _ derives _, spelled => by
    simp only [allSpelled_cons, allSpelled_append] at spelled
    rw [ExprTree.value]
    exact isPrintable_of_derivesExpr derives spelled.2.1
  | _, _, _, .atom derives, spelled => isPrintable_of_derivesExpr derives spelled
  | _, _, _, @DerivesExpr.unary _ op _ _ _ derives, spelled => by
    have printable := isPrintable_of_derivesExpr derives (allSpelled_cons.mp spelled).2
    cases op with
    | minus => exact isPrintable_minus printable
    | bang => exact printable
  | _, _, _, .chain _ first operands, spelled => by
    have printable := isPrintable_of_derivesExpr first (allSpelled_append.mp spelled).1
    exact isPrintable_of_derivesOperands operands printable (allSpelled_append.mp spelled).2

theorem isPrintable_of_derivesOperands : ∀ {n : Nat} {us : List Located} {left tree : ExprTree},
    DerivesOperands n us left tree → left.value.isPrintable = true → AllSpelled us →
    tree.value.isPrintable = true
  | _, _, _, _, .done, printable, _ => printable
  | _, _, _, _, .more _ derives operands, printable, spelled => by
    simp only [allSpelled_cons, allSpelled_append] at spelled
    have printable' := isPrintable_of_derivesExpr derives spelled.2.1
    exact isPrintable_of_derivesOperands operands (isPrintable_apply printable printable') spelled.2.2

theorem arePrintable_of_derivesArguments : ∀ {ts : List Located} {arguments : List ExprTree},
    DerivesArguments ts arguments → AllSpelled ts →
    Expr.arePrintable (ExprTree.values arguments) = true
  | _, _, .none, _ => rfl
  | _, _, .some first more, spelled => by
    have spelled := allSpelled_append.mp spelled
    simp only [ExprTree.values, Expr.arePrintable, isPrintable_of_derivesExpr first spelled.1,
      arePrintable_of_derivesMoreArguments more spelled.2, Bool.and_self]

theorem arePrintable_of_derivesMoreArguments : ∀ {us : List Located} {arguments : List ExprTree},
    DerivesMoreArguments us arguments → AllSpelled us →
    Expr.arePrintable (ExprTree.values arguments) = true
  | _, _, .done, _ => rfl
  | _, _, .more _ first more, spelled => by
    simp only [allSpelled_cons, allSpelled_append] at spelled
    simp only [ExprTree.values, Expr.arePrintable, isPrintable_of_derivesExpr first spelled.2.1,
      arePrintable_of_derivesMoreArguments more spelled.2.2, Bool.and_self]

end

theorem isPrintable_of_derivesGuard {gs : List Located} {condition : ExprTree}
    (guarded : DerivesGuard gs condition) (spelled : AllSpelled gs) :
    condition.value.isPrintable = true := by
  obtain ⟨_, derives, _⟩ := guarded
  simp only [allSpelled_cons, allSpelled_append] at spelled
  exact isPrintable_of_derivesExpr derives spelled.2.1

mutual

/-- A statement of tokens that can be spelled can be printed. -/
theorem isPrintable_of_derivesStmt : ∀ {ts : List Located} {tree : StmtTree},
    DerivesStmt ts tree → AllSpelled ts → tree.value.isPrintable = true
  | _, _, .assign token _ derives _, spelled => by
    simp only [allSpelled_cons, allSpelled_append] at spelled
    simp only [StmtTree.value, Stmt.isPrintable, isName_of_spelled token spelled.1,
      isPrintable_of_derivesExpr derives spelled.2.2.1, Bool.and_self]
  | _, _, .ifThen _ guarded block, spelled => by
    simp only [allSpelled_cons, allSpelled_append] at spelled
    simp only [StmtTree.value, Stmt.isPrintable, isPrintable_of_derivesGuard guarded spelled.2.1,
      arePrintable_of_derivesBlock block spelled.2.2, Stmt.arePrintable, Bool.and_self]
  | _, _, .ifElse _ guarded block _ elseBlock, spelled => by
    simp only [allSpelled_cons, allSpelled_append] at spelled
    simp only [StmtTree.value, Stmt.isPrintable, isPrintable_of_derivesGuard guarded spelled.2.1,
      arePrintable_of_derivesBlock block spelled.2.2.1,
      arePrintable_of_derivesBlock elseBlock spelled.2.2.2.2, Bool.and_self]
  | _, _, .loop _ guarded block, spelled => by
    simp only [allSpelled_cons, allSpelled_append] at spelled
    simp only [StmtTree.value, Stmt.isPrintable, isPrintable_of_derivesGuard guarded spelled.2.1,
      arePrintable_of_derivesBlock block spelled.2.2, Bool.and_self]
  | _, _, .ret _ derives _, spelled => by
    simp only [allSpelled_cons, allSpelled_append] at spelled
    exact isPrintable_of_derivesExpr derives spelled.2.1

theorem arePrintable_of_derivesBlock : ∀ {bs : List Located} {body : List StmtTree},
    DerivesBlock bs body → AllSpelled bs → Stmt.arePrintable (StmtTree.values body) = true
  | _, _, .block _ derives _, spelled => by
    simp only [allSpelled_cons, allSpelled_append] at spelled
    exact arePrintable_of_derivesStmts derives spelled.2.1

theorem arePrintable_of_derivesStmts : ∀ {ts : List Located} {body : List StmtTree},
    DerivesStmts ts body → AllSpelled ts → Stmt.arePrintable (StmtTree.values body) = true
  | _, _, .done, _ => rfl
  | _, _, .more first more, spelled => by
    have spelled := allSpelled_append.mp spelled
    simp only [StmtTree.values, Stmt.arePrintable, isPrintable_of_derivesStmt first spelled.1,
      arePrintable_of_derivesStmts more spelled.2, Bool.and_self]

end

theorem areNames_of_derivesMoreParameters {ps : List Located} {parameters : List String}
    (derives : DerivesMoreParameters ps parameters) (spelled : AllSpelled ps) :
    parameters.all Text.isName = true := by
  induction derives with
  | done => rfl
  | more _ token _ ih =>
    simp only [allSpelled_cons] at spelled
    simp only [List.all_cons, isName_of_spelled token spelled.2.1, ih spelled.2.2, Bool.and_self]

/-- The names and the statements of a function of tokens that can be spelled. -/
theorem isPrintable_of_derivesFunction {ts : List Located} {tree : FunctionTree}
    (derives : DerivesFunction ts tree) (spelled : AllSpelled ts) :
    Text.isName tree.name = true ∧ tree.parameters.all Text.isName = true ∧
      Stmt.arePrintable (StmtTree.values tree.body) = true := by
  obtain ⟨_, called, _, parameters, _, _, body, _⟩ := derives
  simp only [allSpelled_cons, allSpelled_append] at spelled
  obtain ⟨-, calledSpelled, -, parametersSpelled, -, -, bodySpelled, -⟩ := spelled
  refine ⟨isName_of_spelled called calledSpelled, ?_, arePrintable_of_derivesStmts body bodySpelled⟩
  cases parameters with
  | none => rfl
  | some token more =>
    have spelled := allSpelled_cons.mp parametersSpelled
    simp only [List.all_cons, isName_of_spelled token spelled.1,
      areNames_of_derivesMoreParameters more spelled.2, Bool.and_self]

theorem isPrintable_of_derivesProgram {ts : List Located} {trees : List FunctionTree}
    (derives : DerivesProgram ts trees) (spelled : AllSpelled ts) {tree : FunctionTree}
    (listed : tree ∈ trees) : Text.isName tree.name = true ∧
      tree.parameters.all Text.isName = true ∧
      Stmt.arePrintable (StmtTree.values tree.body) = true := by
  induction derives with
  | done => cases listed
  | more first _ ih =>
    have spelled := allSpelled_append.mp spelled
    rcases List.mem_cons.mp listed with rfl | later
    · exact isPrintable_of_derivesFunction first spelled.1
    · exact ih spelled.2 later

/-- The functions of definitions, none of which repeats a parameter. -/
theorem exists_definition_of_collect {text : List Char} {definitions : List Definition}
    {functions : List FunctionDef} (collected : Program.collect text [] definitions = .ok functions)
    {f : FunctionDef} (listed : f ∈ functions) : ∃ definition ∈ definitions,
      f = Program.toFunction text definition ∧ definition.parameters.Nodup := by
  obtain ⟨distinct, rfl⟩ := Program.collect_eq_ok_iff.mp collected
  obtain ⟨definition, member, rfl⟩ := List.mem_map.mp listed
  exact ⟨definition, member, rfl, distinct.parameters definition member⟩

/-- What is known of a text that is parsed. -/
theorem exists_trees_of_parse {text : String} {functions : List FunctionDef}
    (parsed : Program.parse text = .ok functions) :
    (readTokens text.toList).find? (·.value.isNone) = none ∧ ∃ trees,
      DerivesProgram (Program.locate (.ofText text.toList) (readTokens text.toList)) trees ∧
      Program.collect text.toList [] (trees.map FunctionTree.value) = .ok functions := by
  simp only [Program.parse, Program.parseText] at parsed
  split at parsed
  · cases parsed
  · next readable =>
    split at parsed
    · cases parsed
    · next definitions read =>
      obtain ⟨trees, derives, rfl⟩ := derives_of_readDefinitions read
      exact ⟨readable, trees, derives, parsed⟩

/-- **Every function that a text is read as can be printed, and its variables are computed from it.** -/
theorem isPrintable_of_parse {text : String} {functions : List FunctionDef}
    (parsed : Program.parse text = .ok functions) {f : FunctionDef} (listed : f ∈ functions) :
    f.isPrintable = true ∧ f.variableSet = FunctionDef.variablesOf f.parameters f.body := by
  obtain ⟨-, trees, derives, collected⟩ := exists_trees_of_parse parsed
  obtain ⟨definition, member, rfl, distinct⟩ := exists_definition_of_collect collected listed
  obtain ⟨tree, within, rfl⟩ := List.mem_map.mp member
  obtain ⟨name, names, body⟩ := isPrintable_of_derivesProgram derives
    (fun t located => isSpelled_of_mem_locate located) within
  refine ⟨?_, rfl⟩
  simp only [FunctionDef.isPrintable, Bool.and_eq_true, decide_eq_true_eq]
  exact ⟨⟨⟨name, names⟩, distinct⟩, body⟩

/-- **Parsing undoes printing.** A function whose variables were computed and that can be printed is
parsed from its text with the same name, parameters, variables and statements up to line numbers, on
lines that ascend in source order, and it has the same text again. Every function that a text is parsed
as is such a function. -/
theorem parse_undoes_render :
    (∀ f : FunctionDef, f.variableSet = FunctionDef.variablesOf f.parameters f.body →
      f.isPrintable = true → ∃ g, Program.parseSingle f.render = .ok g ∧ g.name = f.name ∧
        g.parameters = f.parameters ∧ g.variableSet = f.variableSet ∧
        Stmt.allWithoutLines g.body = Stmt.allWithoutLines f.body ∧
        (Stmt.linesIn g.body).Pairwise (· < ·) ∧ g.render = f.render) ∧
    ∀ text functions, Program.parse text = .ok functions → ∀ f ∈ functions,
      f.isPrintable = true ∧ f.variableSet = FunctionDef.variablesOf f.parameters f.body := by
  refine ⟨fun f made printable => ?_, fun text functions parsed f listed =>
    isPrintable_of_parse parsed listed⟩
  rw [made]
  exact parseSingle_render printable

/-- Statements without line numbers: a branch with a negative operand and a loop with a call. -/
def unnumbered : FunctionDef :=
  FunctionDef.make 0 "raise" ["low", "x"]
    [.ifElse 0 (.compare (.var "x") .lt (.int (-1)))
      [.assign 0 "x" (.arith (.var "low") .sub (.int (-1)))]
      [.loop 0 (.not (.call "done" [.var "x", .int (-2)])) [.assign 0 "x" (.arith (.var "x") .mul (.int 2))]],
      .ret 0 (.var "x")] none

theorem unnumbered_round_trip : unnumbered.isPrintable = true ∧
    ∃ g, Program.parseSingle unnumbered.render = .ok g ∧ g.name = "raise" ∧
      g.parameters = ["low", "x"] ∧ g.variableSet = unnumbered.variableSet ∧
      Stmt.allWithoutLines g.body = Stmt.allWithoutLines unnumbered.body ∧
      (Stmt.linesIn g.body).Pairwise (· < ·) ∧ g.render = unnumbered.render :=
  have printable : unnumbered.isPrintable = true := by decide +kernel
  ⟨printable, parse_undoes_render.1 unnumbered rfl printable⟩

end Dataflow
