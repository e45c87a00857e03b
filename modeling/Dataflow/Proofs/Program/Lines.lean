import Dataflow.Proofs.Print.RoundTrip
import Dataflow.Proofs.Program.Duplicates
import Dataflow.Proofs.Text.Position

/-!
# The lines of statements

A statement of a function begins at a token, and the statements in source order begin at tokens in the
order of the text (`DerivesFunction.exists_heads`). The line of a statement is that of the token, which is
the line of its first byte. So the lines of the statements of a function do not decrease in source order
and are not above the line of the function (`lines_and_columns_are_exact`).
-/

set_option autoImplicit false

namespace Dataflow

/-! ## Where statements begin -/

namespace Grammar

/-- Some of the tokens, the first of which is `first`, are the statement. -/
def Begins (tokens : List Located) (s : Stmt) (first : Located) : Prop :=
  ∃ rest tree, first :: rest <:+: tokens ∧ DerivesStmt (first :: rest) tree ∧ tree.value = s

/-- Statements begin at tokens, in the order of the tokens. -/
structure Heads (tokens : List Located) (statements : List Stmt) (heads : List Located) : Prop where
  begins : List.Forall₂ (Begins tokens) statements heads
  inOrder : heads.Sublist tokens

variable {ts us heads heads' : List Located} {s : Stmt} {ss ss' : List Stmt} {t : Located}

theorem Begins.mono (part : ts <:+: us) (begins : Begins ts s t) : Begins us s t := by
  obtain ⟨rest, tree, within, derives, value⟩ := begins
  exact ⟨rest, tree, within.trans part, derives, value⟩

theorem Begins.mem (begins : Begins ts s t) : t ∈ ts := by
  obtain ⟨rest, tree, within, -, -⟩ := begins
  exact within.subset List.mem_cons_self

theorem Begins.line (begins : Begins ts s t) : s.line = t.line := by
  obtain ⟨rest, tree, -, derives, rfl⟩ := begins
  cases derives <;> rfl

namespace Heads

theorem nil (ts : List Located) : Heads ts [] [] := ⟨.nil, List.nil_sublist ts⟩

theorem mono (part : ts <:+: us) (found : Heads ts ss heads) : Heads us ss heads :=
  ⟨found.begins.imp fun _ _ begins => begins.mono part, found.inOrder.trans part.sublist⟩

theorem append (first : Heads ts ss heads) (second : Heads us ss' heads') :
    Heads (ts ++ us) (ss ++ ss') (heads ++ heads') :=
  ⟨List.rel_append (first.mono (List.prefix_append ts us).isInfix).begins
    (second.mono (List.suffix_append ts us).isInfix).begins, first.inOrder.append second.inOrder⟩

/-- A statement begins before the ones in its bodies. -/
theorem cons {tree : StmtTree} (derives : DerivesStmt (t :: ts) tree) (inner : Heads ts ss heads) :
    Heads (t :: ts) (tree.value :: ss) (t :: heads) :=
  ⟨.cons ⟨ts, tree, List.infix_rfl, derives, rfl⟩ (inner.mono (List.suffix_cons t ts).isInfix).begins,
    inner.inOrder.cons_cons t⟩

theorem map_line (found : Heads ts ss heads) : ss.map Stmt.line = heads.map (·.line) := by
  obtain ⟨begins, -⟩ := found
  induction begins with
  | nil => rfl
  | cons first _ ih => rw [List.map_cons, List.map_cons, first.line, ih]

end Heads

mutual

theorem DerivesStmt.exists_heads : ∀ {ts : List Located} {tree : StmtTree}, DerivesStmt ts tree →
    ∃ heads, Heads ts tree.value.occurrences heads
  | _, _, .assign token equals value stops => ⟨_, .cons (.assign token equals value stops) (.nil _)⟩
  | _, _, .ifThen token guarded block => by
    obtain ⟨heads, inner⟩ := block.exists_heads
    rw [StmtTree.value, Stmt.occurrences, Stmt.occurrencesIn, List.append_nil]
    exact ⟨_, .cons (.ifThen token guarded block) (inner.mono (List.suffix_append _ _).isInfix)⟩
  | _, _, @DerivesStmt.ifElse _ otherwise _ _ cs _ _ _ token guarded block alternative second => by
    obtain ⟨heads, inner⟩ := block.exists_heads
    obtain ⟨heads', inner'⟩ := second.exists_heads
    have both := inner.append (inner'.mono (List.suffix_cons otherwise cs).isInfix)
    exact ⟨_, .cons (.ifElse token guarded block alternative second)
      (both.mono (List.suffix_append _ _).isInfix)⟩
  | _, _, .loop token guarded block => by
    obtain ⟨heads, inner⟩ := block.exists_heads
    exact ⟨_, .cons (.loop token guarded block) (inner.mono (List.suffix_append _ _).isInfix)⟩
  | _, _, .ret token value stops => ⟨_, .cons (.ret token value stops) (.nil _)⟩
termination_by structural _ _ derives => derives

theorem DerivesBlock.exists_heads : ∀ {ts : List Located} {body : List StmtTree}, DerivesBlock ts body →
    ∃ heads, Heads ts (Stmt.occurrencesIn (StmtTree.values body)) heads
  | _, _, .block _ derives _ => by
    obtain ⟨heads, inner⟩ := derives.exists_heads
    exact ⟨heads, inner.mono ⟨[_], [_], rfl⟩⟩
termination_by structural _ _ block => block

theorem DerivesStmts.exists_heads : ∀ {ts : List Located} {body : List StmtTree}, DerivesStmts ts body →
    ∃ heads, Heads ts (Stmt.occurrencesIn (StmtTree.values body)) heads
  | _, _, .done => ⟨_, .nil _⟩
  | _, _, .more first rest => by
    obtain ⟨_, found⟩ := first.exists_heads
    obtain ⟨_, later⟩ := rest.exists_heads
    exact ⟨_, found.append later⟩
termination_by structural _ _ derives => derives

end

/-- **The statements of a function begin one after the other.** -/
theorem DerivesFunction.exists_heads {tree : FunctionTree} (derives : DerivesFunction ts tree) :
    ∃ heads, Heads ts (Stmt.occurrencesIn (StmtTree.values tree.body)) heads := by
  cases derives with
  | @function t called opening closing entering leaving _ ps _ _ _ _ _ _ _ _ _ body _ =>
    obtain ⟨heads, inner⟩ := body.exists_heads
    exact ⟨heads, inner.mono ⟨t :: called :: opening :: (ps ++ [closing, entering]), [leaving], by simp⟩⟩

end Grammar

/-! ## Their lines -/

namespace Program

open Grammar

/-- Some of the tokens of a text are the function. -/
inductive MadeOf (text : List Char) : List Located → FunctionDef → Prop
  | intro {own : List Located} {tree : FunctionTree} :
      own <:+: locate (.ofText text) (readTokens text) → DerivesFunction own tree →
      MadeOf text own (toFunction text tree.value)

theorem exists_madeOf {text : String} {functions : List FunctionDef} (parsed : parse text = .ok functions)
    {f : FunctionDef} (listed : f ∈ functions) : ∃ own, MadeOf text.toList own f := by
  obtain ⟨-, trees, derives, collected⟩ := exists_trees_of_parse parsed
  obtain ⟨definition, member, rfl, -⟩ := exists_definition_of_collect collected listed
  obtain ⟨tree, within, rfl⟩ := List.mem_map.mp member
  obtain ⟨before, own, after, tokens, function⟩ := derives.exists_function within
  exact ⟨own, .intro ⟨before, after, by simp [tokens]⟩ function⟩

/-- The lines of the tokens of a text do not decrease. -/
theorem pairwise_line_locate (text : List Char) :
    (locate (.ofText text) (readTokens text)).Pairwise fun t u => t.line ≤ u.line := by
  have ordered := ordered_locate (.ofText text) text
  refine ordered.disjoint.imp_of_mem fun {t u} first second apart => ?_
  rw [line_of_mem_locate first, line_of_mem_locate second]
  exact Text.LineIndex.monotone_line _ (Nat.le_trans (Nat.le_of_lt (ordered.nonempty t first)) apart)

namespace MadeOf

variable {text : List Char} {own heads : List Located} {f : FunctionDef}

theorem line_of_mem (madeOf : MadeOf text own f) {t : Located} (listed : t ∈ own) :
    t.line = 1 + ((Text.bytes text).take t.start).count Text.feed := by
  obtain ⟨part, -⟩ := madeOf
  rw [line_of_mem_locate (part.subset listed), Text.LineIndex.line_ofText]

theorem pairwise_line (madeOf : MadeOf text own f) : own.Pairwise fun t u => t.line ≤ u.line := by
  obtain ⟨part, -⟩ := madeOf
  exact (pairwise_line_locate text).sublist part.sublist

/-- A function is on the line of its first token, and its other tokens are not above it. -/
theorem line_le (madeOf : MadeOf text own f) {t : Located} (listed : t ∈ own) : f.line ≤ t.line := by
  have lines := madeOf.pairwise_line
  obtain ⟨-, function⟩ := madeOf
  obtain ⟨first, inner, last, rfl, -, -, line, -, -⟩ := function.exists_ends
  refine Nat.le_trans (Nat.le_of_eq line) ?_
  rcases List.mem_cons.mp listed with rfl | later
  · exact Nat.le_refl _
  · exact (List.pairwise_cons.mp lines).1 t later

theorem exists_heads (madeOf : MadeOf text own f) : ∃ heads, Heads own (Stmt.occurrencesIn f.body) heads := by
  obtain ⟨-, function⟩ := madeOf
  exact function.exists_heads

end MadeOf

/-- **Lines and columns are exact.** An offset in a text is on the line after the line feeds before it, in
the column after the bytes since the last of them, and later offsets have later lines or columns. In a
text that is parsed, each statement of a function is on the line of its first byte; the lines of the
statements do not decrease in source order and are not above the line of the function. -/
theorem lines_and_columns_are_exact (text : String) :
    (Text.LineIndex.ofText text.toList).Exact text.toUTF8.data.toList ∧
    ∀ functions, parse text = .ok functions → ∀ f ∈ functions, ∃ own heads,
      MadeOf text.toList own f ∧ Heads own (Stmt.occurrencesIn f.body) heads ∧
      List.Forall₂ (fun s t => s.line = 1 + (text.toUTF8.data.toList.take t.start).count Text.feed)
        (Stmt.occurrencesIn f.body) heads ∧
      (Stmt.linesIn f.body).Pairwise (· ≤ ·) ∧ ∀ line ∈ Stmt.linesIn f.body, f.line ≤ line := by
  refine ⟨Text.LineIndex.exact_ofText text, fun functions parsed f listed => ?_⟩
  obtain ⟨own, madeOf⟩ := exists_madeOf parsed listed
  obtain ⟨heads, found⟩ := madeOf.exists_heads
  have lines : Stmt.linesIn f.body = heads.map (·.line) := found.map_line
  refine ⟨own, heads, madeOf, found, ?_, ?_, ?_⟩
  · refine found.begins.imp fun s t begins => ?_
    rw [begins.line, madeOf.line_of_mem begins.mem, Text.bytes_toList]
  · rw [lines]
    exact List.pairwise_map.mpr (madeOf.pairwise_line.sublist found.inOrder)
  · rw [lines]
    intro line member
    obtain ⟨t, head, rfl⟩ := List.mem_map.mp member
    exact madeOf.line_le (found.inOrder.subset head)

/-- A loop with statements on its own line and below it, after a comment of more bytes than characters. -/
def accented : String :=
  "// é\nfunction f(n) \x7b x = n;\n  while (x > 0) \x7b x = x - 1; y = x;\n  n = y; \x7d\n\x7d"

/-- The function of the text. -/
def accentedLoop : FunctionDef :=
  FunctionDef.make 2 "f" ["n"]
    [.assign 2 "x" (.var "n"),
      .loop 3 (.compare (.var "x") .gt (.int 0))
        [.assign 3 "x" (.arith (.var "x") .sub (.int 1)), .assign 3 "y" (.var "x"),
          .assign 4 "n" (.var "y")]]
    (some "function f(n) \x7b x = n;\n  while (x > 0) \x7b x = x - 1; y = x;\n  n = y; \x7d\n\x7d")

theorem accentedLoop_lines_exact :
    parse accented = .ok [accentedLoop] ∧
    (Text.LineIndex.ofText accented.toList).position 6 = ⟨2, 1⟩ ∧
    ∃ own heads, MadeOf accented.toList own accentedLoop ∧
      Heads own (Stmt.occurrencesIn accentedLoop.body) heads ∧
      List.Forall₂ (fun s t => s.line = 1 + (accented.toUTF8.data.toList.take t.start).count Text.feed)
        (Stmt.occurrencesIn accentedLoop.body) heads ∧
      [2, 3, 3, 3, 4].Pairwise (· ≤ ·) ∧ ∀ line ∈ [2, 3, 3, 3, 4], 2 ≤ line := by
  have parsed : parse accented = .ok [accentedLoop] := by decide +kernel
  obtain ⟨exact, lines⟩ := lines_and_columns_are_exact accented
  have place := exact.position_eq 6 (by decide +kernel)
  exact ⟨parsed, place.trans (by decide +kernel), lines _ parsed accentedLoop List.mem_cons_self⟩

end Program

end Dataflow
