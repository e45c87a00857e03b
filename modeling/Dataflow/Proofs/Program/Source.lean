import Dataflow.Proofs.Grammar.Relocation
import Dataflow.Proofs.Print.RoundTrip

/-!
# The source of a function stands alone

The text that is kept with a function is the part of the program text from its `function` keyword to its
closing brace (`IsExcerpt`). Parsed by itself it is the same function on the first line, with everything
else as far up (`sources_are_self_contained`): the pieces of the part are those of the whole text there
(`exists_part`), and the derivation of its tokens moves with them (`DerivesFunction.exists_unmoved`).
-/

set_option autoImplicit false

namespace Dataflow

/-- The function so many lines further down. -/
def FunctionDef.down (lines : Nat) (f : FunctionDef) : FunctionDef :=
  { f with line := f.line + lines, body := Stmt.allDown lines f.body }

open Grammar

theorem Lexeme.Spells.eq_function {word : List Char} (spells : Spells word (some (.keyword .function))) :
    word = "function".toList := by
  cases spells with
  | keyword listed =>
    simp only [Keyword.spellings, List.mem_cons, Prod.mk.injEq, reduceCtorEq, and_false, and_true,
      List.not_mem_nil, or_false] at listed
    rw [listed]

namespace Program

theorem mem_readTokens_of_mem_locate {index : Text.LineIndex} {readings : List (Spanned (Option Token))}
    {t : Located} (located : t ∈ locate index readings) : ⟨some t.token, t.start, t.stop⟩ ∈ readings := by
  obtain ⟨⟨reading, start, stop⟩, listed, found⟩ := List.mem_filterMap.mp located
  obtain ⟨token, rfl, rfl⟩ := Option.map_eq_some_iff.mp found
  exact listed

/-- The part of a text between two others, when it goes from a `function` keyword on a line to a closing
brace. -/
structure IsExcerpt (text before source after : List Char) (line : Nat) : Prop where
  whole : text = before ++ (source ++ after)
  keyword : ∃ stop, ⟨some (.keyword .function), Text.byteLength before, stop⟩ ∈ readTokens text
  line_eq : line = before.count '\n' + 1
  brace : ∃ start, ⟨some (.symbol .rightBrace), start, Text.byteLength (before ++ source)⟩ ∈ readTokens text
  starts : "function".toList <+: source
  ends : ['\x7d'] <:+ source

theorem isExcerpt_of_isPart {text before part after : List Char} {first last : Located}
    {ts inner us : List Located}
    (tokens : locate (.ofText text) (readTokens text) = ts ++ first :: (inner ++ last :: us))
    (isPart : IsPart text before part after first inner last) (head : first.token = .keyword .function)
    (foot : last.token = .symbol .rightBrace) : IsExcerpt text before part after first.line := by
  obtain ⟨word, opens, spells⟩ := isPart.opens
  obtain ⟨mark, closes, spells'⟩ := isPart.closes
  have firstListed : first ∈ locate (.ofText text) (readTokens text) := by simp [tokens]
  have lastListed : last ∈ locate (.ofText text) (readTokens text) := by simp [tokens]
  have keyword := mem_readTokens_of_mem_locate firstListed
  have brace := mem_readTokens_of_mem_locate lastListed
  rw [head] at spells keyword
  rw [foot] at spells' brace
  obtain rfl := spells.eq_function
  cases spells'
  exact ⟨isPart.whole, ⟨_, isPart.start ▸ keyword⟩, isPart.line, ⟨_, isPart.stop ▸ brace⟩, opens, closes⟩

/-- **The part of a text that is a function is the same function when it stands alone.** -/
theorem exists_excerpt {text : List Char} {ts own us : List Located} {tree : FunctionTree}
    (tokens : locate (.ofText text) (readTokens text) = ts ++ (own ++ us))
    (derives : DerivesFunction own tree) : ∃ before source after tree',
      IsExcerpt text before source after tree.line ∧
      (∀ lexeme ∈ Lexeme.ofText source, lexeme ∈ Lexeme.ofText text) ∧
      DerivesFunction (locate (.ofText source) (readTokens source)) tree' ∧
      tree.value = tree'.value.moved (before.count '\n') (Text.byteLength before) ∧
      Text.slice text tree.start tree.stop = source ∧
      Text.slice source tree'.start tree'.stop = source := by
  obtain ⟨first, inner, last, rfl, head, foot, line, start, stop⟩ := derives.exists_ends
  have split : locate (.ofText text) (readTokens text) = ts ++ first :: (inner ++ last :: us) := by
    simpa using tokens
  obtain ⟨before, source, after, isPart⟩ := exists_part split
  have excerpt := isExcerpt_of_isPart split isPart head foot
  rw [isPart.tokens] at derives
  obtain ⟨tree', derives', value⟩ := derives.exists_unmoved
  refine ⟨before, source, after, tree', line ▸ excerpt, isPart.pieces, derives', value, ?_, ?_⟩
  · rw [start, stop, isPart.start, isPart.stop, isPart.whole, Text.slice_append]
  · -- The function begins where the part begins and ends where it ends, so by itself it fills its text.
    have starts := congrArg Definition.start value
    have stops := congrArg Definition.stop value
    simp only [FunctionTree.value, Definition.moved, start, stop, isPart.start, isPart.stop,
      Text.byteLength_append] at starts stops
    have slice := Text.slice_append [] source []
    rw [List.append_nil, List.nil_append] at slice
    rwa [show tree'.start = 0 by omega, show tree'.stop = Text.byteLength source by omega]

/-- A moved definition is the same function further down, if the two are sliced from the same text. -/
theorem down_toFunction {text source : List Char} {d d' : Definition} {lines bytes : Nat}
    (elsewhere : d = d'.moved lines bytes)
    (same : Text.slice source d'.start d'.stop = Text.slice text d.start d.stop) :
    (toFunction source d').down lines = toFunction text d := by
  have names : FunctionDef.variablesOf d'.parameters (Stmt.allDown lines d'.body) =
      FunctionDef.variablesOf d'.parameters d'.body :=
    variablesOf_congr (Stmt.allWithoutLines_allDown lines d'.body)
  subst elsewhere
  simp only [toFunction, FunctionDef.make, FunctionDef.down, same]
  simp only [Definition.moved, names]

/-- **The source of a function is self-contained.** It is the part of the text from the `function` keyword
on the line of the function to a closing brace, and it is parsed as the same function, with the line of the
function and of every statement smaller by the lines above the function; so it is its own source. -/
theorem sources_are_self_contained (text : String) (functions : List FunctionDef)
    (parsed : parse text = .ok functions) (f : FunctionDef) (listed : f ∈ functions) :
    ∃ before source after, IsExcerpt text.toList before source after f.line ∧
      f.source = some (String.ofList source) ∧
      ∃ g, parseSingle (String.ofList source) = .ok g ∧ g.down (f.line - 1) = f ∧ g.line = 1 ∧
        g.source = f.source := by
  obtain ⟨readable, trees, derives, collected⟩ := exists_trees_of_parse parsed
  obtain ⟨definition, member, rfl, distinct⟩ := exists_definition_of_collect collected listed
  obtain ⟨tree, within, rfl⟩ := List.mem_map.mp member
  obtain ⟨ts, own, us, tokens, function⟩ := derives.exists_function within
  obtain ⟨before, source, after, tree', excerpt, pieces, function', value, slice, slice'⟩ :=
    exists_excerpt tokens function
  -- The pieces of the part are pieces of the text, so none of them is unreadable.
  have readable' : (readTokens source).find? (·.value.isNone) = none :=
    (readable_iff source).mpr fun lexeme piece =>
      (readable_iff text.toList).mp readable lexeme (pieces lexeme piece)
  have single : parseSingle (String.ofList source) = .ok (toFunction source tree'.value) := by
    have spelled : (String.ofList source).toList = source := String.toList_ofList
    have distinct' : tree'.parameters.Nodup := by
      rw [value] at distinct
      exact distinct
    rw [← spelled] at readable' function'
    have whole := parseSingle_of_derives readable' function' distinct'
    rwa [spelled] at whole
  have lines : tree.line - 1 = before.count '\n' := by
    rw [excerpt.line_eq]
    exact Nat.add_sub_cancel ..
  have line : tree'.line = 1 := by
    have moved : tree.line = tree'.line + before.count '\n' := congrArg Definition.line value
    have above := excerpt.line_eq
    omega
  have same := slice'.trans slice.symm
  refine ⟨before, source, after, excerpt, congrArg (some ∘ String.ofList) slice, _, single, ?_, line,
    congrArg (some ∘ String.ofList) same⟩
  exact lines.symm ▸ down_toFunction value same

/-- Two functions, the second of which starts on the line on which the first one ends, between comments
that look as if they went on. -/
def oneAndHalf : String :=
  "// /*\nfunction one() \x7b // \x7d\n\x7d function half(n) \x7b\n  return n / 2; /* // */ \x7d// /*"

/-- The second of the two functions. -/
def half : FunctionDef :=
  FunctionDef.make 3 "half" ["n"] [.ret 4 (.arith (.var "n") .div (.int 2))]
    (some "function half(n) \x7b\n  return n / 2; /* // */ \x7d")

theorem half_self_contained :
    (∃ one, parse oneAndHalf = .ok [one, half]) ∧
    ∃ before source after, IsExcerpt oneAndHalf.toList before source after 3 ∧
      half.source = some (String.ofList source) ∧
      ∃ g, parseSingle (String.ofList source) = .ok g ∧ g.down 2 = half ∧ g.line = 1 ∧
        g.source = half.source :=
  have parsed : parse oneAndHalf = .ok [FunctionDef.make 2 "one" [] []
      (some "function one() \x7b // \x7d\n\x7d"), half] := by decide +kernel
  ⟨⟨_, parsed⟩, sources_are_self_contained oneAndHalf _ parsed half (by simp)⟩

end Program

end Dataflow
