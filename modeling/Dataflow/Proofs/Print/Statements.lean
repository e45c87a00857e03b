import Dataflow.FunctionDef
import Dataflow.Proofs.Graph.Agenda
import Dataflow.Proofs.Print.Expressions

/-!
# Printed statements are read back

The lines of a statement are read as tokens that derive the statement up to its line numbers
(`printedAs_renderAt`): a statement is on the line it starts on, so its number is the line after what
stands before it. Every statement ends its line, so the numbers ascend in source order (`Ascends`).
-/

set_option autoImplicit false

namespace Dataflow

namespace Stmt

mutual

/-- Statements whose names are names and whose expressions can be printed. -/
def isPrintable : Stmt → Bool
  | assign _ target value => Text.isName target && value.isPrintable
  | ifElse _ condition thenBody elseBody =>
    condition.isPrintable && arePrintable thenBody && arePrintable elseBody
  | loop _ condition body => condition.isPrintable && arePrintable body
  | ret _ value => value.isPrintable

/-- Lists of such statements. -/
def arePrintable : List Stmt → Bool
  | [] => true
  | s :: rest => s.isPrintable && arePrintable rest

end

mutual

/-- The statement with no line numbers. -/
def withoutLines : Stmt → Stmt
  | assign _ target value => assign 0 target value
  | ifElse _ condition thenBody elseBody =>
    ifElse 0 condition (allWithoutLines thenBody) (allWithoutLines elseBody)
  | loop _ condition body => loop 0 condition (allWithoutLines body)
  | ret _ value => ret 0 value

/-- The statements with no line numbers. -/
def allWithoutLines : List Stmt → List Stmt
  | [] => []
  | s :: rest => s.withoutLines :: allWithoutLines rest

end

/-- The line numbers of statements in source order, each statement before the ones in its bodies. -/
def linesIn (body : List Stmt) : List Nat := (occurrencesIn body).map line

/-- The line numbers of a statement and of the ones in its bodies. -/
def lines (s : Stmt) : List Nat := s.occurrences.map line

end Stmt

/-! ## Ascending lines -/

/-- Numbers that ascend from `low` and stay below `high`. -/
def Ascends (low high : Nat) (numbers : List Nat) : Prop :=
  numbers.Pairwise (· < ·) ∧ ∀ n ∈ numbers, low ≤ n ∧ n < high

theorem ascends_nil (low high : Nat) : Ascends low high [] := by
  simp [Ascends]

theorem Ascends.cons {low high : Nat} {numbers : List Nat} (later : Ascends (low + 1) high numbers)
    (room : low < high) : Ascends low high (low :: numbers) := by
  refine ⟨List.pairwise_cons.mpr ⟨fun n member => (later.2 n member).1, later.1⟩, fun n member => ?_⟩
  rcases List.mem_cons.mp member with rfl | member
  · exact ⟨Nat.le_refl n, room⟩
  · have := later.2 n member
    omega

theorem Ascends.append {low middle high : Nat} {numbers numbers' : List Nat}
    (first : Ascends low middle numbers) (second : Ascends middle high numbers') (le : low ≤ middle)
    (le' : middle ≤ high) : Ascends low high (numbers ++ numbers') := by
  refine ⟨List.pairwise_append.mpr ⟨first.1, second.1, fun n member n' member' => ?_⟩,
    fun n member => ?_⟩
  · exact Nat.lt_of_lt_of_le (first.2 n member).2 (second.2 n' member').1
  · rcases List.mem_append.mp member with member | member
    · have := first.2 n member
      omega
    · have := second.2 n member
      omega

theorem Ascends.widen {low low' high high' : Nat} {numbers : List Nat} (ascends : Ascends low high numbers)
    (le : low' ≤ low) (le' : high ≤ high') : Ascends low' high' numbers :=
  ⟨ascends.1, fun n member => ⟨Nat.le_trans le (ascends.2 n member).1,
    Nat.lt_of_lt_of_le (ascends.2 n member).2 le'⟩⟩

theorem lineAfter_append (as bs : List Char) :
    Text.lineAfter (as ++ bs) = Text.lineAfter as + bs.count '\n' := by
  simp only [Text.lineAfter, List.count_append]
  omega

/-! ## Parts of statements -/

open Grammar

/-- The blanks before a line are no tokens. -/
theorem reads_indentation (depth : Nat) (pre rest : List Char) :
    Reads rest pre (Stmt.indentation depth).toList [] := by
  rw [Stmt.indentation, String.toList_ofList]
  generalize 4 * depth = width
  induction width generalizing pre with
  | zero => exact .nil
  | succ width ih => exact .blank rfl (ih (pre ++ [' ']))

theorem lineAfter_indentation (pre : List Char) (depth : Nat) :
    Text.lineAfter (pre ++ (Stmt.indentation depth).toList) = Text.lineAfter pre := by
  rw [lineAfter_append, Stmt.indentation, String.toList_ofList, List.count_replicate]
  rfl

theorem reads_semicolon (pre rest : List Char) :
    Reads rest pre [';'] [tokenAt pre (.symbol .semicolon) [';']] :=
  reads_mark (fun _ => rfl) pre rest

theorem reads_newline (pre rest : List Char) : Reads rest pre ['\n'] [] :=
  .blank rfl .nil

/-- A statement's text is read as tokens that derive it up to its lines, which ascend through the lines
of the text. -/
def PrintedAs (text : List Char) (s : Stmt) : Prop :=
  ∀ pre rest, ∃ ts tree, Reads rest pre text ts ∧ DerivesStmt ts tree ∧
    tree.value.withoutLines = s.withoutLines ∧
    Ascends (Text.lineAfter pre) (Text.lineAfter (pre ++ text)) tree.value.lines

/-- The same for a list of statements. -/
def PrintedAllAs (text : List Char) (body : List Stmt) : Prop :=
  ∀ pre rest, ∃ ts trees, Reads rest pre text ts ∧ DerivesStmts ts trees ∧
    Stmt.allWithoutLines (StmtTree.values trees) = Stmt.allWithoutLines body ∧
    Ascends (Text.lineAfter pre) (Text.lineAfter (pre ++ text)) (Stmt.linesIn (StmtTree.values trees))

/-- A keyword before a blank is read as the keyword. -/
theorem reads_keyword (key : Keyword) (pre rest : List Char) :
    Reads (' ' :: rest) pre key.text.toList [tokenAt pre (.keyword key) key.text.toList] := by
  cases key <;> exact Reads.single rfl

/-- A condition in parentheses. -/
theorem reads_guard {condition : Expr} (printable : condition.isPrintable = true)
    (pre rest : List Char) : ∃ gs tree,
      Reads rest pre (['('] ++ (condition.render.toList ++ [')'])) gs ∧ DerivesGuard gs tree ∧
        tree.value = condition := by
  obtain ⟨ts, tree, reads, derives, value⟩ := (spelledAs_render printable).loosen (Nat.zero_le _)
    condition.printedLevel_le (pre ++ ['(']) (')' :: rest) (stops_cons (by decide) rest)
  have whole := (reads_leftParen pre _).append (reads.append (reads_rightParen _ rest))
  exact ⟨_, tree, whole, .guard rfl derives rfl, value⟩

/-- A value with its semicolon at the end of a line. -/
theorem reads_value {value : Expr} (printable : value.isPrintable = true) (pre rest : List Char) :
    ∃ ts stop tree, Reads rest pre (value.render.toList ++ ([';'] ++ ['\n'])) (ts ++ [stop]) ∧
      DerivesExpr 0 ts tree ∧ stop.token = .symbol .semicolon ∧ tree.value = value := by
  obtain ⟨ts, tree, reads, derives, value⟩ := (spelledAs_render printable).loosen (Nat.zero_le _)
    value.printedLevel_le pre (';' :: ['\n'] ++ rest) (stops_cons (by decide) _)
  exact ⟨ts, _, tree, reads.append ((reads_semicolon _ _).append (reads_newline _ rest)), derives, rfl,
    value⟩

/-- The text of a block around the text of its statements. -/
def blockText (depth : Nat) (text : List Char) : List Char :=
  ['\x7b'] ++ (['\n'] ++ (text ++ ((Stmt.indentation depth).toList ++ ['\x7d'])))

/-- A block around statements that are read back. -/
theorem PrintedAllAs.block {text : List Char} {body : List Stmt} (printed : PrintedAllAs text body)
    (depth : Nat) (pre rest : List Char) : ∃ bs trees,
      Reads rest pre (blockText depth text) bs ∧ DerivesBlock bs trees ∧
        Stmt.allWithoutLines (StmtTree.values trees) = Stmt.allWithoutLines body ∧
        Ascends (Text.lineAfter pre + 1) (Text.lineAfter (pre ++ blockText depth text))
          (Stmt.linesIn (StmtTree.values trees)) := by
  obtain ⟨ts, trees, reads, derives, same, ascends⟩ := printed (pre ++ ['\x7b'] ++ ['\n'])
    ((Stmt.indentation depth).toList ++ ['\x7d'] ++ rest)
  let opening := tokenAt pre (.symbol .leftBrace) ['\x7b']
  let closing := tokenAt (pre ++ ['\x7b'] ++ ['\n'] ++ text ++ (Stmt.indentation depth).toList)
    (.symbol .rightBrace) ['\x7d']
  have whole : Reads rest pre (blockText depth text) (opening :: (ts ++ [closing])) :=
    (reads_mark (fun _ => rfl) pre _).append ((reads_newline _ _).append
      (reads.append ((reads_indentation depth _ _).append (reads_mark (fun _ => rfl) _ rest))))
  refine ⟨_, trees, whole, .block rfl derives rfl, same, ?_⟩
  have low : Text.lineAfter (pre ++ ['\x7b'] ++ ['\n']) = Text.lineAfter pre + 1 := by
    rw [lineAfter_append, lineAfter_append]
    rfl
  have high : Text.lineAfter (pre ++ ['\x7b'] ++ ['\n'] ++ text) =
      Text.lineAfter (pre ++ blockText depth text) := by
    have whole : pre ++ blockText depth text =
        pre ++ ['\x7b'] ++ ['\n'] ++ text ++ (Stmt.indentation depth).toList ++ ['\x7d'] := by
      simp [blockText]
    rw [whole, lineAfter_append _ ['\x7d'], lineAfter_indentation]
    rfl
  rw [low, high] at ascends
  exact ascends

/-! ## Statements -/

theorem lineAfter_lt {text : List Char} (ends : '\n' ∈ text) (pre : List Char) :
    Text.lineAfter pre < Text.lineAfter (pre ++ text) := by
  have feeds : 0 < text.count '\n' := List.count_pos_iff.mpr ends
  rw [lineAfter_append]
  omega

theorem lineAfter_le (pre text : List Char) : Text.lineAfter pre ≤ Text.lineAfter (pre ++ text) := by
  rw [lineAfter_append]
  omega

/-- A statement without bodies is on the line it starts on. -/
theorem ascends_single {pre text : List Char} {line : Nat} (same : line = Text.lineAfter pre)
    (ends : '\n' ∈ text) : Ascends (Text.lineAfter pre) (Text.lineAfter (pre ++ text)) [line] := by
  rw [same]
  exact (ascends_nil _ _).cons (lineAfter_lt ends pre)

/-- An assignment. -/
theorem printedAs_assign {target : String} {value : Expr} (name : Text.isName target = true)
    (printable : value.isPrintable = true) (depth line : Nat) :
    PrintedAs ((Stmt.indentation depth).toList ++ (target.toList ++ ([' '] ++ (['='] ++ ([' '] ++
      (value.render.toList ++ ([';'] ++ ['\n']))))))) (.assign line target value) := by
  intro pre rest
  let indented := pre ++ (Stmt.indentation depth).toList
  obtain ⟨ts, stop, tree, reads, derives, stops, rfl⟩ :=
    reads_value printable (indented ++ target.toList ++ [' '] ++ ['='] ++ [' ']) rest
  let t := tokenAt indented (.identifier target) target.toList
  let equals := tokenAt (indented ++ target.toList ++ [' ']) (.symbol .assign) ['=']
  have targetRead (rest : List Char) : Reads (' ' :: rest) indented target.toList [t] :=
    reads_name name indented (stops_cons (by decide) rest)
  have equalsRead (rest : List Char) :
      Reads (' ' :: rest) (indented ++ target.toList ++ [' ']) ['='] [equals] := Reads.single rfl
  have whole := (reads_indentation depth pre _).append ((targetRead _).append
    ((reads_blank _ _).append ((equalsRead _).append ((reads_blank _ _).append reads))))
  refine ⟨t :: equals :: (ts ++ [stop]), _, whole, .assign rfl rfl derives stops, rfl, ?_⟩
  exact ascends_single (lineAfter_indentation pre depth) (by simp)

/-- A return. -/
theorem printedAs_ret {value : Expr} (printable : value.isPrintable = true) (depth line : Nat) :
    PrintedAs ((Stmt.indentation depth).toList ++ (Keyword.returnWord.text.toList ++ ([' '] ++
      (value.render.toList ++ ([';'] ++ ['\n']))))) (.ret line value) := by
  intro pre rest
  let indented := pre ++ (Stmt.indentation depth).toList
  obtain ⟨ts, stop, tree, reads, derives, stops, rfl⟩ :=
    reads_value printable (indented ++ Keyword.returnWord.text.toList ++ [' ']) rest
  have whole := (reads_indentation depth pre _).append ((reads_keyword .returnWord indented _).append
    ((reads_blank _ _).append reads))
  refine ⟨_ :: (ts ++ [stop]), _, whole, .ret rfl derives stops, rfl, ?_⟩
  exact ascends_single (lineAfter_indentation pre depth) (by simp)

/-- The text of a branch or a loop up to the end of its first body. -/
def compoundText (key : Keyword) (depth : Nat) (condition : Expr) (text : List Char) : List Char :=
  (Stmt.indentation depth).toList ++ (key.text.toList ++ ([' '] ++
    ((['('] ++ (condition.render.toList ++ [')'])) ++ ([' '] ++ blockText depth text))))

/-- The start of a branch or a loop is read back, with the line it is on. -/
theorem reads_compound {condition : Expr} {text : List Char} {body : List Stmt} (key : Keyword)
    (printable : condition.isPrintable = true) (printed : PrintedAllAs text body) (depth : Nat)
    (pre rest : List Char) : ∃ (t : Located) (gs bs : List Located) (tree : ExprTree)
      (trees : List StmtTree),
      Reads rest pre (compoundText key depth condition text) (t :: (gs ++ bs)) ∧
        t.token = .keyword key ∧ t.line = Text.lineAfter pre ∧
        DerivesGuard gs tree ∧ tree.value = condition ∧ DerivesBlock bs trees ∧
        Stmt.allWithoutLines (StmtTree.values trees) = Stmt.allWithoutLines body ∧
        Ascends (Text.lineAfter pre + 1)
          (Text.lineAfter (pre ++ compoundText key depth condition text))
          (Stmt.linesIn (StmtTree.values trees)) := by
  let indented := pre ++ (Stmt.indentation depth).toList
  let guarded := indented ++ key.text.toList ++ [' '] ++ (['('] ++ (condition.render.toList ++ [')']))
  let t := tokenAt indented (.keyword key) key.text.toList
  obtain ⟨gs, tree, guardRead, derivesGuard, value⟩ := reads_guard printable
    (indented ++ key.text.toList ++ [' ']) ([' '] ++ blockText depth text ++ rest)
  obtain ⟨bs, trees, blockRead, block, same, ascends⟩ := printed.block depth (guarded ++ [' ']) rest
  have whole : Reads rest pre (compoundText key depth condition text) (t :: (gs ++ bs)) :=
    (reads_indentation depth pre _).append ((reads_keyword key indented _).append
      ((reads_blank _ _).append (guardRead.append ((reads_blank _ _).append blockRead))))
  have through : guarded ++ [' '] ++ blockText depth text =
      pre ++ compoundText key depth condition text := by
    simp [guarded, indented, compoundText]
  -- No token of a guard ends a line, but for the order of the lines it is enough that none goes back.
  have start : Text.lineAfter pre ≤ Text.lineAfter (guarded ++ [' ']) := by
    have further : guarded ++ [' '] = pre ++ ((Stmt.indentation depth).toList ++ (key.text.toList ++
        ([' '] ++ ((['('] ++ (condition.render.toList ++ [')'])) ++ [' '])))) := by
      simp [guarded, indented]
    rw [further]
    exact lineAfter_le pre _
  rw [through] at ascends
  exact ⟨t, gs, bs, tree, trees, whole, rfl, lineAfter_indentation pre depth, derivesGuard, value, block,
    same, ascends.widen (Nat.succ_le_succ start) (Nat.le_refl _)⟩

/-- A statement with bodies is on a line before theirs. -/
theorem ascends_compound {pre text : List Char} {line high : Nat} {numbers : List Nat}
    (ascends : Ascends (Text.lineAfter pre + 1) high numbers)
    (within : high ≤ Text.lineAfter (pre ++ text)) (same : line = Text.lineAfter pre)
    (ends : '\n' ∈ text) :
    Ascends (Text.lineAfter pre) (Text.lineAfter (pre ++ text)) (line :: numbers) := by
  rw [same]
  exact (ascends.widen (Nat.le_refl _) within).cons (lineAfter_lt ends pre)

/-- What follows a text is not on an earlier line. -/
theorem lineAfter_append_le (pre text more : List Char) :
    Text.lineAfter (pre ++ text) ≤ Text.lineAfter (pre ++ (text ++ more)) := by
  rw [← List.append_assoc]
  exact lineAfter_le (pre ++ text) more

/-- A loop. -/
theorem printedAs_loop {condition : Expr} {text : List Char} {body : List Stmt}
    (printable : condition.isPrintable = true) (printed : PrintedAllAs text body) (depth line : Nat) :
    PrintedAs (compoundText .whileWord depth condition text ++ ['\n']) (.loop line condition body) := by
  intro pre rest
  obtain ⟨t, gs, bs, tree, trees, reads, token, onLine, guarded, rfl, block, same, ascends⟩ :=
    reads_compound .whileWord printable printed depth pre (['\n'] ++ rest)
  have whole := reads.append (reads_newline _ rest)
  rw [List.append_nil] at whole
  refine ⟨_, .loop t.line tree trees, whole, .loop token guarded block, ?_, ?_⟩
  · simp [StmtTree.value, Stmt.withoutLines, same]
  · exact ascends_compound ascends (lineAfter_append_le ..) onLine (by simp)

/-- A branch with one body. -/
theorem printedAs_ifThen {condition : Expr} {text : List Char} {body : List Stmt}
    (printable : condition.isPrintable = true) (printed : PrintedAllAs text body) (depth line : Nat) :
    PrintedAs (compoundText .ifWord depth condition text ++ ['\n'])
      (.ifElse line condition body []) := by
  intro pre rest
  obtain ⟨t, gs, bs, tree, trees, reads, token, onLine, guarded, rfl, block, same, ascends⟩ :=
    reads_compound .ifWord printable printed depth pre (['\n'] ++ rest)
  have whole := reads.append (reads_newline _ rest)
  rw [List.append_nil] at whole
  refine ⟨_, .ifThen t.line tree trees, whole, .ifThen token guarded block, ?_, ?_⟩
  · simp [StmtTree.value, Stmt.withoutLines, same]
  · have lines : (StmtTree.ifThen t.line tree trees).value.lines =
        t.line :: Stmt.linesIn (StmtTree.values trees) := by
      simp [StmtTree.value, Stmt.lines, Stmt.linesIn, Stmt.occurrences, Stmt.occurrencesIn, Stmt.line]
    rw [lines]
    exact ascends_compound ascends (lineAfter_append_le ..) onLine (by simp)

/-- A branch with two bodies. -/
theorem printedAs_ifElse {condition : Expr} {text text' : List Char} {thenBody elseBody : List Stmt}
    (printable : condition.isPrintable = true) (printed : PrintedAllAs text thenBody)
    (printed' : PrintedAllAs text' elseBody) (depth line : Nat) :
    PrintedAs (compoundText .ifWord depth condition text ++ ([' '] ++ (Keyword.elseWord.text.toList ++
      ([' '] ++ (blockText depth text' ++ ['\n'])))))
      (.ifElse line condition thenBody elseBody) := by
  intro pre rest
  obtain ⟨t, gs, bs, tree, trees, reads, token, onLine, guarded, rfl, block, same, ascends⟩ :=
    reads_compound .ifWord printable printed depth pre
      ([' '] ++ (Keyword.elseWord.text.toList ++ ([' '] ++ (blockText depth text' ++ ['\n']))) ++ rest)
  let first := pre ++ compoundText .ifWord depth tree.value text
  obtain ⟨cs, trees', reads', block', same', ascends'⟩ := printed'.block depth
    (first ++ [' '] ++ Keyword.elseWord.text.toList ++ [' ']) (['\n'] ++ rest)
  have whole := reads.append ((reads_blank _ _).append ((reads_keyword .elseWord _ _).append
    ((reads_blank _ _).append (reads'.append (reads_newline _ rest)))))
  let otherwise := tokenAt (first ++ [' ']) (.keyword .elseWord) Keyword.elseWord.text.toList
  have tokens : t :: (gs ++ bs) ++ ([] ++ ([otherwise] ++ ([] ++ (cs ++ [])))) =
      t :: (gs ++ (bs ++ otherwise :: cs)) := by simp
  rw [tokens] at whole
  refine ⟨_, .ifElse t.line tree trees trees', whole, .ifElse token guarded block rfl block', ?_, ?_⟩
  · simp [StmtTree.value, Stmt.withoutLines, same, same']
  · have lines : (StmtTree.ifElse t.line tree trees trees').value.lines = t.line ::
        (Stmt.linesIn (StmtTree.values trees) ++ Stmt.linesIn (StmtTree.values trees')) := by
      simp [StmtTree.value, Stmt.lines, Stmt.linesIn, Stmt.occurrences, Stmt.line]
    -- The second body starts below the line the first one ends on.
    have between : Text.lineAfter first ≤
        Text.lineAfter (first ++ [' '] ++ Keyword.elseWord.text.toList ++ [' ']) := by
      simp only [List.append_assoc]
      exact lineAfter_le first _
    have second := ascends'.widen (Nat.le_succ_of_le between) (Nat.le_refl _)
    have numbers := ascends.append second (lineAfter_lt (by simp [compoundText, blockText]) pre)
      (by simp only [List.append_assoc]; exact lineAfter_le first _)
    rw [lines]
    refine ascends_compound numbers ?_ onLine (by simp)
    simp only [first, lineAfter_append, List.count_append]
    omega

mutual

/-- **A printed statement is read back up to its line numbers, which ascend.** -/
theorem printedAs_renderAt : ∀ {s : Stmt}, s.isPrintable = true → ∀ depth : Nat,
    PrintedAs (s.renderAt depth).toList s
  | .assign line target value, printable, depth => by
    simp only [Stmt.isPrintable, Bool.and_eq_true] at printable
    simp only [Stmt.renderAt, Stmt.header, String.toList_append, List.append_assoc]
    exact printedAs_assign printable.1 printable.2 depth line
  | .ifElse line condition thenBody elseBody, printable, depth => by
    simp only [Stmt.isPrintable, Bool.and_eq_true] at printable
    have first := printedAllAs_renderAllAt printable.1.2 (depth + 1)
    have second := printedAllAs_renderAllAt printable.2 (depth + 1)
    -- An empty second body is not printed, and the grammar has a rule of its own for it.
    cases elseBody with
    | nil =>
      have printed := printedAs_ifThen printable.1.1 first depth line
      simp only [compoundText, blockText, List.append_assoc] at printed
      simp only [Stmt.renderAt, Stmt.header, String.toList_append, List.append_assoc]
      exact printed
    | cons s rest =>
      have printed := printedAs_ifElse printable.1.1 first second depth line
      simp only [compoundText, blockText, List.append_assoc] at printed
      simp only [Stmt.renderAt, Stmt.header, String.toList_append, List.append_assoc]
      exact printed
  | .loop line condition body, printable, depth => by
    simp only [Stmt.isPrintable, Bool.and_eq_true] at printable
    have printed := printedAs_loop printable.1 (printedAllAs_renderAllAt printable.2 (depth + 1)) depth line
    simp only [compoundText, blockText, List.append_assoc] at printed
    simp only [Stmt.renderAt, Stmt.header, String.toList_append, List.append_assoc]
    exact printed
  | .ret line value, printable, depth => by
    simp only [Stmt.isPrintable] at printable
    simp only [Stmt.renderAt, Stmt.header, String.toList_append, List.append_assoc]
    exact printedAs_ret printable depth line

/-- The same for a list of statements. -/
theorem printedAllAs_renderAllAt : ∀ {body : List Stmt}, Stmt.arePrintable body = true →
    ∀ depth : Nat, PrintedAllAs (Stmt.renderAllAt depth body).toList body
  | [], _, _ => fun pre rest => ⟨[], [], .nil, .done, rfl, ascends_nil _ _⟩
  | s :: body, printable, depth => by
    simp only [Stmt.arePrintable, Bool.and_eq_true] at printable
    simp only [Stmt.renderAllAt, String.toList_append]
    intro pre rest
    obtain ⟨ts, tree, reads, derives, same, ascends⟩ :=
      printedAs_renderAt printable.1 depth pre ((Stmt.renderAllAt depth body).toList ++ rest)
    obtain ⟨us, trees, reads', derives', same', ascends'⟩ :=
      printedAllAs_renderAllAt printable.2 depth (pre ++ (s.renderAt depth).toList) rest
    refine ⟨ts ++ us, tree :: trees, reads.append reads', .more derives derives', ?_, ?_⟩
    · simp [StmtTree.values, Stmt.allWithoutLines, same, same']
    · have lines : Stmt.linesIn (StmtTree.values (tree :: trees)) =
          tree.value.lines ++ Stmt.linesIn (StmtTree.values trees) := by
        simp [StmtTree.values, Stmt.linesIn, Stmt.lines, Stmt.occurrencesIn]
      rw [lines, ← List.append_assoc]
      exact ascends.append ascends' (lineAfter_le _ _) (lineAfter_le _ _)

end

end Dataflow
