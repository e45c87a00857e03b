import Dataflow.Proofs.Grammar.Relocation
import Dataflow.Proofs.Program.SyntaxError

/-!
# Where a repeated name is reported

A text whose tokens are a program is rejected only for a repeated name: of a function, or of a parameter
within one function. The error is that of the first function in the text that repeats a name, and its own
name is looked at before its parameters (`first_repeated_name_is_reported`). The functions of the text
stand one after the other, each with the line that its first byte is on (`inSource_of_derives`).
-/

set_option autoImplicit false

namespace Dataflow.Program

open Grammar

/-- Definitions stand one after the other in a text, each with the line that its first byte is on. -/
structure InSource (text : List Char) (definitions : List Definition) : Prop where
  line : ∀ d ∈ definitions, d.line = (Text.LineIndex.ofText text).line d.start
  nonempty : ∀ d ∈ definitions, d.start < d.stop
  disjoint : definitions.Pairwise fun d e => d.stop ≤ e.start

theorem line_of_mem_locate {index : Text.LineIndex} {readings : List (Spanned (Option Token))}
    {t : Located} (located : t ∈ locate index readings) : t.line = index.line t.start := by
  obtain ⟨item, -, found⟩ := List.mem_filterMap.mp located
  obtain ⟨token, -, rfl⟩ := Option.map_eq_some_iff.mp found
  rfl

theorem Ordered.of_append {ts us : List Located} (ordered : Ordered (ts ++ us)) :
    Ordered ts ∧ Ordered us ∧ ∀ t ∈ ts, ∀ u ∈ us, t.stop ≤ u.start := by
  obtain ⟨first, second, across⟩ := List.pairwise_append.mp ordered.disjoint
  exact ⟨⟨fun t listed => ordered.nonempty t (List.mem_append_left _ listed), first⟩,
    ⟨fun t listed => ordered.nonempty t (List.mem_append_right _ listed), second⟩, across⟩

/-- The functions of a program follow each other as their tokens do. -/
theorem disjoint_of_derives {ts : List Located} {trees : List FunctionTree}
    (derives : DerivesProgram ts trees) (ordered : Ordered ts) :
    trees.Pairwise fun tree tree' => tree.stop ≤ tree'.start := by
  induction derives with
  | done => exact .nil
  | @more ts us first rest function program ih =>
    obtain ⟨-, later, across⟩ := ordered.of_append
    refine List.pairwise_cons.mpr ⟨fun tree listed => ?_, ih later⟩
    obtain ⟨_, inner, last, rfl, -, -, -, -, stop⟩ := function.exists_ends
    obtain ⟨before, own, after, rfl, function'⟩ := program.exists_function listed
    obtain ⟨head, inner', _, rfl, -, -, -, start, -⟩ := function'.exists_ends
    rw [stop, start]
    exact across last (by simp) head (by simp)

theorem inSource_of_derives {text : List Char} {trees : List FunctionTree}
    (derives : DerivesProgram (locate (.ofText text) (readTokens text)) trees) :
    InSource text (trees.map FunctionTree.value) := by
  have ordered := ordered_locate (.ofText text) text
  refine ⟨?_, ?_, List.pairwise_map.mpr (disjoint_of_derives derives ordered)⟩
  all_goals
    intro d listed
    obtain ⟨tree, within, rfl⟩ := List.mem_map.mp listed
    obtain ⟨before, own, after, tokens, function⟩ := derives.exists_function within
    obtain ⟨first, inner, last, rfl, -, -, line, start, stop⟩ := function.exists_ends
  · have located : first ∈ locate (.ofText text) (readTokens text) := by simp [tokens]
    have lineOf := line_of_mem_locate located
    rwa [← line, ← start] at lineOf
  · rw [tokens] at ordered
    obtain ⟨own, -, -⟩ := ordered.of_append.2.1.of_append
    have apart := (List.pairwise_cons.mp own.disjoint).1 last (by simp)
    have width := own.nonempty first (by simp)
    have width' := own.nonempty last (by simp)
    change tree.start < tree.stop
    omega

/-- A text whose tokens are a program is parsed as its definitions are collected. -/
theorem parse_eq_collect {text : String} {trees : List FunctionTree}
    (readable : (readTokens text.toList).find? (·.value.isNone) = none)
    (derives : DerivesProgram (locate (.ofText text.toList) (readTokens text.toList)) trees) :
    parse text = collect text.toList [] (trees.map FunctionTree.value) := by
  simp only [parse, parseText, readable, readDefinitions_of_derives derives]

/-- **The first function that repeats a name is reported.** A text whose tokens are a program is parsed
exactly when the names of its functions are distinct and those of the parameters of each, and then as its
functions in the order of the text. Otherwise the error is that of the first function that has the name of
an earlier one or, failing that, repeats a parameter. -/
theorem first_repeated_name_is_reported (text : String) (trees : List FunctionTree)
    (readable : (readTokens text.toList).find? (·.value.isNone) = none)
    (derives : DerivesProgram (locate (.ofText text.toList) (readTokens text.toList)) trees) :
    ∃ definitions, definitions = trees.map FunctionTree.value ∧ InSource text.toList definitions ∧
      (∀ functions, parse text = .ok functions ↔
        Distinct definitions ∧ functions = definitions.map (toFunction text.toList)) ∧
      ∀ cause, parse text = .error cause ↔ ∃ before d after, definitions = before ++ d :: after ∧
        Distinct before ∧ Offends before d cause := by
  refine ⟨_, rfl, inSource_of_derives derives, ?_, ?_⟩
  · intro functions
    rw [parse_eq_collect readable derives]
    exact collect_eq_ok_iff
  · intro cause
    rw [parse_eq_collect readable derives]
    exact collect_eq_error_iff

/-- Three functions, of which the second repeats a parameter and the third the name of the first. -/
def repeats : String := "function f(a) \x7b\x7d\nfunction g(b, c, b, c) \x7b\x7d\nfunction f() \x7b\x7d"

theorem repeats_reports_parameter :
    (readTokens repeats.toList).find? (·.value.isNone) = none ∧
    parse repeats = .error (.duplicateParameter "g" "b") := by
  have readable : (readTokens repeats.toList).find? (·.value.isNone) = none := by decide +kernel
  have read : (readDefinitions (locate (.ofText repeats.toList) (readTokens repeats.toList))).toOption =
      some [⟨1, 0, 16, "f", ["a"], []⟩, ⟨2, 17, 42, "g", ["b", "c", "b", "c"], []⟩,
        ⟨3, 43, 58, "f", [], []⟩] := by decide +kernel
  cases outcome : readDefinitions (locate (.ofText repeats.toList) (readTokens repeats.toList)) with
  | error stuck =>
    rw [outcome] at read
    cases read
  | ok definitions =>
    rw [outcome] at read
    obtain ⟨trees, derives, rfl⟩ := derives_of_readDefinitions outcome
    obtain ⟨_, rfl, -, -, reported⟩ := first_repeated_name_is_reported repeats trees readable derives
    refine ⟨readable, (reported _).mpr ?_⟩
    rw [Option.some.inj read]
    refine ⟨[⟨1, 0, 16, "f", ["a"], []⟩], ⟨2, 17, 42, "g", ["b", "c", "b", "c"], []⟩, _, rfl,
      ⟨by decide, by decide⟩, ?_⟩
    have split : ["b", "c", "b", "c"] = ["b", "c"] ++ "b" :: ["c"] := rfl
    exact .parameter (by decide) split (by decide) (by decide)

end Dataflow.Program
