import Dataflow.Proofs.Grammar.Unambiguity
import Dataflow.Proofs.Grammar.ViablePrefix
import Dataflow.Proofs.Print.Statements
import Dataflow.Proofs.Token.Locality

/-!
# Derivations in another place

When all tokens of a text move down by some lines and on by some bytes, what they derive moves with them
and is otherwise the same (`DerivesFunction.moved`). Tokens are a function in one way only, so whenever
moved tokens are a function, it is the moved function of the tokens in their old place
(`DerivesFunction.exists_unmoved`).
-/

set_option autoImplicit false

namespace Dataflow

namespace Stmt

mutual

/-- The statement so many lines further down. -/
def down (lines : Nat) : Stmt → Stmt
  | assign line target value => assign (line + lines) target value
  | ifElse line condition thenBody elseBody =>
    ifElse (line + lines) condition (allDown lines thenBody) (allDown lines elseBody)
  | loop line condition body => loop (line + lines) condition (allDown lines body)
  | ret line value => ret (line + lines) value

/-- The statements so many lines further down. -/
def allDown (lines : Nat) : List Stmt → List Stmt
  | [] => []
  | s :: rest => down lines s :: allDown lines rest

end

mutual

theorem withoutLines_down (lines : Nat) : ∀ s : Stmt, (s.down lines).withoutLines = s.withoutLines
  | assign _ _ _ => rfl
  | ifElse _ _ thenBody elseBody => by
    simp only [down, withoutLines, allWithoutLines_allDown lines thenBody,
      allWithoutLines_allDown lines elseBody]
  | loop _ _ body => by simp only [down, withoutLines, allWithoutLines_allDown lines body]
  | ret _ _ => rfl

theorem allWithoutLines_allDown (lines : Nat) : ∀ body : List Stmt,
    allWithoutLines (allDown lines body) = allWithoutLines body
  | [] => rfl
  | s :: rest => by
    simp only [allDown, allWithoutLines, withoutLines_down lines s, allWithoutLines_allDown lines rest]

end

end Stmt

/-- The definition in a text before which there is more. -/
def Definition.moved (lines bytes : Nat) (d : Definition) : Definition :=
  ⟨d.line + lines, d.start + bytes, d.stop + bytes, d.name, d.parameters, Stmt.allDown lines d.body⟩

namespace Grammar

variable (lines bytes : Nat)

theorem words_moved (ts : List Located) : words (ts.map (.moved lines bytes)) = words ts := by
  simp [words, Located.moved]

/-! ## What moves with its tokens -/

mutual

theorem DerivesStmt.moved : ∀ {ts : List Located} {tree : StmtTree}, DerivesStmt ts tree →
    ∃ tree', DerivesStmt (ts.map (.moved lines bytes)) tree' ∧ tree'.value = tree.value.down lines
  | _, _, .assign token equals derives stops => by
    rw [List.map_cons, List.map_cons, List.map_append]
    exact ⟨_, .assign token equals (derives.of_words (words_moved ..)) stops, rfl⟩
  | _, _, .ifThen token guarded block => by
    obtain ⟨_, block', same⟩ := block.moved
    rw [List.map_cons, List.map_append]
    refine ⟨_, .ifThen token (guarded.of_words (words_moved ..)) block', ?_⟩
    rw [StmtTree.value, same]
    rfl
  | _, _, .ifElse token guarded block alternative second => by
    obtain ⟨_, block', same⟩ := block.moved
    obtain ⟨_, second', same'⟩ := second.moved
    rw [List.map_cons, List.map_append, List.map_append, List.map_cons]
    refine ⟨_, .ifElse token (guarded.of_words (words_moved ..)) block' alternative second', ?_⟩
    rw [StmtTree.value, same, same']
    rfl
  | _, _, .loop token guarded block => by
    obtain ⟨_, block', same⟩ := block.moved
    rw [List.map_cons, List.map_append]
    refine ⟨_, .loop token (guarded.of_words (words_moved ..)) block', ?_⟩
    rw [StmtTree.value, same]
    rfl
  | _, _, .ret token derives stops => by
    rw [List.map_cons, List.map_append]
    exact ⟨_, .ret token (derives.of_words (words_moved ..)) stops, rfl⟩
termination_by structural _ _ derives => derives

theorem DerivesBlock.moved : ∀ {ts : List Located} {body : List StmtTree}, DerivesBlock ts body →
    ∃ body', DerivesBlock (ts.map (.moved lines bytes)) body' ∧
      StmtTree.values body' = Stmt.allDown lines (StmtTree.values body)
  | _, _, .block opened derives closed => by
    obtain ⟨_, derives', same⟩ := derives.moved
    rw [List.map_cons, List.map_append]
    exact ⟨_, .block opened derives' closed, same⟩
termination_by structural _ _ block => block

theorem DerivesStmts.moved : ∀ {ts : List Located} {body : List StmtTree}, DerivesStmts ts body →
    ∃ body', DerivesStmts (ts.map (.moved lines bytes)) body' ∧
      StmtTree.values body' = Stmt.allDown lines (StmtTree.values body)
  | _, _, .done => ⟨_, .done, rfl⟩
  | _, _, .more first rest => by
    obtain ⟨_, first', same⟩ := first.moved
    obtain ⟨_, rest', later⟩ := rest.moved
    rw [List.map_append]
    refine ⟨_, .more first' rest', ?_⟩
    rw [StmtTree.values, same, later]
    rfl
termination_by structural _ _ derives => derives

end

/-- **A function moves with its tokens.** -/
theorem DerivesFunction.moved {ts : List Located} {tree : FunctionTree} (derives : DerivesFunction ts tree) :
    ∃ tree', DerivesFunction (ts.map (.moved lines bytes)) tree' ∧
      tree'.value = tree.value.moved lines bytes := by
  cases derives with
  | function head called opened parameters closed entered body left =>
    obtain ⟨_, body', same⟩ := body.moved lines bytes
    simp only [List.map_cons, List.map_append]
    refine ⟨_, .function head called opened (parameters.of_words (words_moved ..)) closed entered body'
      left, ?_⟩
    rw [FunctionTree.value, same]
    rfl

variable {lines bytes}

/-- **The same tokens elsewhere are the same function elsewhere.** -/
theorem DerivesFunction.exists_unmoved {ts : List Located} {tree : FunctionTree}
    (derives : DerivesFunction (ts.map (.moved lines bytes)) tree) :
    ∃ tree', DerivesFunction ts tree' ∧ tree.value = tree'.value.moved lines bytes := by
  -- Tokens are a function for their words alone. Moved back, it is a second function of the moved tokens.
  obtain ⟨tree', derives'⟩ := derives.of_words (words_moved lines bytes ts).symm
  obtain ⟨_, again, value⟩ := derives'.moved lines bytes
  obtain ⟨rfl, -⟩ := derives.unique again (rfl : _ ++ [] = _ ++ [])
  exact ⟨tree', derives', value⟩

/-! ## The tokens of a function -/

/-- The first and the last token of a function. -/
theorem DerivesFunction.exists_ends {ts : List Located} {tree : FunctionTree}
    (derives : DerivesFunction ts tree) : ∃ first inner last, ts = first :: (inner ++ [last]) ∧
      first.token = .keyword .function ∧ last.token = .symbol .rightBrace ∧
      tree.line = first.line ∧ tree.start = first.start ∧ tree.stop = last.stop := by
  cases derives with
  | @function t called opening closing entering leaving _ ps ts _ _ head _ _ _ _ _ _ left =>
    exact ⟨t, called :: opening :: (ps ++ closing :: entering :: ts), leaving, by simp, head, left, rfl,
      rfl, rfl⟩

/-- The tokens of one of the functions of a program. -/
theorem DerivesProgram.exists_function {ts : List Located} {trees : List FunctionTree}
    (derives : DerivesProgram ts trees) {tree : FunctionTree} (listed : tree ∈ trees) :
    ∃ before own after, ts = before ++ (own ++ after) ∧ DerivesFunction own tree := by
  induction derives with
  | done => cases listed
  | @more ts us first rest function _ ih =>
    rcases List.mem_cons.mp listed with rfl | later
    · exact ⟨[], ts, us, rfl, function⟩
    · obtain ⟨before, own, after, rfl, found⟩ := ih later
      exact ⟨ts ++ before, own, after, (List.append_assoc ..).symm, found⟩

end Grammar

end Dataflow
