import Dataflow.Proofs.Token.Coverage

/-!
# Pieces are cut locally

Where a text is cut depends on what follows a piece only in that no rule has a longer word there. So when
a text is broken off after one of its pieces, the pieces before are still cut as they were
(`first_of_fits`), and both parts are cut into the pieces that the whole had (`ofText_split`). A comment
that is not closed is no exception: a `/` stays a `/` when text after it is taken away.

The tokens of a part of a text are therefore the tokens that the text has there, in other places
(`located_append`): offsets differ by the length of what stands before the part, and lines by the number
of line feeds in it.
-/

set_option autoImplicit false

namespace Dataflow

namespace Lexeme

/-! ## A piece by itself -/

theorem ofSlash_self {rest cs : List Char} (text : (ofSlash rest).text = '/' :: cs) :
    ofSlash cs = ofSlash rest := by
  unfold ofSlash at text
  split at text
  · next rest =>
    obtain rfl := (List.cons.inj text).2
    simp [ofSlash, List.takeWhile_eq_self_iff.mpr (List.all_eq_true.mp (List.all_takeWhile ..))]
  · next rest =>
    split at text
    · next body closed =>
      obtain rfl := (List.cons.inj text).2
      simp [ofSlash, closed, (throughClose?_eq_some_iff.mp closed).2]
    · next unclosed =>
      obtain rfl := (List.cons.inj text).2
      simp [ofSlash, unclosed]
  · next line block =>
    obtain rfl := (List.cons.inj text).2
    simp [ofSlash]

theorem ofMark_self {c : Char} {rest cs : List Char} (text : (ofMark c rest).text = c :: cs) :
    ofMark c cs = ofMark c rest := by
  rw [text_ofMark] at text
  split at text
  · next double =>
    obtain ⟨mark, found⟩ := Option.isSome_iff_exists.mp double.1
    obtain ⟨after, rfl⟩ := List.head?_eq_some_iff.mp double.2
    obtain rfl := (List.cons.inj text).2
    simp [ofMark, found]
  · next single =>
    obtain rfl := (List.cons.inj text).2
    cases found : Symbol.withEqual? c with
    | none => simp [ofMark, found]
    | some mark =>
      have other : ∀ after, rest ≠ '=' :: after := by
        rintro after rfl
        exact single ⟨by simp [found], rfl⟩
      simp [ofMark, found, other]

/-- **A piece is cut the same when it stands alone.** -/
theorem first_self {c : Char} {rest cs : List Char} (text : (first c rest).text = c :: cs) :
    first c cs = first c rest := by
  have whole : ∀ p : Char → Bool, (rest.takeWhile p).takeWhile p = rest.takeWhile p := fun p =>
    List.takeWhile_eq_self_iff.mpr (List.all_eq_true.mp (List.all_takeWhile ..))
  rw [first_eq] at text ⊢
  rw [first_eq]
  cases known : classOf c with
  | blank =>
    rw [known] at text
    obtain rfl := (List.cons.inj text).2
    simp [whole]
  | slash =>
    obtain rfl := classOf_eq_slash_iff.mp known
    rw [known] at text
    exact ofSlash_self text
  | digit =>
    rw [known] at text
    obtain rfl := (List.cons.inj ((text_ofDigits _).symm.trans text)).2
    simp [whole]
  | letter =>
    rw [known] at text
    obtain rfl := (List.cons.inj ((text_ofWord _).symm.trans text)).2
    simp [whole]
  | other =>
    rw [known] at text
    exact ofMark_self text

/-! ## A piece in a shorter text -/

/-- The first piece is a word of a rule, or a character with which no word starts. -/
theorem matched_or_stray (c : Char) (rest : List Char) :
    (∃ rule : Rule, (first c rest).text ∈ rule.language) ∨ (first c rest).text = [c] ∧ Stray c := by
  cases read : (first c rest).piece.reading? with
  | none => exact .inl (skipped_first read (first_append c rest)).matched
  | some reading =>
    rcases (spells_first read).matched with matched | ⟨d, single, stray, -⟩
    · exact .inl matched
    · obtain ⟨cs, _, text, -⟩ := text_first c rest
      cases text.symm.trans single
      exact .inr ⟨text, stray⟩

theorem prefix_text_first (c : Char) (rest : List Char) : (first c rest).text <+: c :: rest :=
  ⟨_, first_append c rest⟩

/-- The longest word of a text is the longest of every shorter text that has it. -/
theorem text_first_of_fits {c : Char} {cs rest : List Char}
    (fits : (first c (cs ++ rest)).text <+: c :: cs) :
    (first c cs).text = (first c (cs ++ rest)).text := by
  have start := prefix_text_first c cs
  have wider : c :: cs <+: c :: (cs ++ rest) := ⟨rest, rfl⟩
  have opens : ∀ rest, (first c rest).text.head? = some c := by
    intro rest
    obtain ⟨_, _, text, -⟩ := text_first c rest
    rw [text]
    rfl
  -- Each of the two words is in both texts, so neither is longer than the other. A stray character
  -- starts no word of a rule, so it is stray in both texts or in neither.
  rcases matched_or_stray c cs with ⟨rule, member⟩ | ⟨single, stray⟩
  · rcases matched_or_stray c (cs ++ rest) with ⟨rule', member'⟩ | ⟨-, stray⟩
    · have shorter := prefix_first member (start.trans wider)
      exact shorter.eq_of_length_le (prefix_first member' fits).length_le
    · exact absurd (opens cs) (stray rule _ member)
  · rcases matched_or_stray c (cs ++ rest) with ⟨rule', member'⟩ | ⟨single', -⟩
    · exact absurd (opens (cs ++ rest)) (stray rule' _ member')
    · rw [single, single']

/-- **A piece is cut the same when the text is broken off after it.** -/
theorem first_of_fits {c : Char} {cs rest : List Char} (fits : (first c (cs ++ rest)).text <+: c :: cs) :
    first c cs = first c (cs ++ rest) := by
  obtain ⟨own, _, text, -⟩ := text_first c cs
  rw [← first_self text]
  exact first_self (text_first_of_fits fits ▸ text)

/-! ## The pieces of a part -/

/-- The characters of pieces one after the other. -/
def spelling (lexemes : List Lexeme) : List Char := lexemes.flatMap (·.text)

theorem spelling_cons (lexeme : Lexeme) (lexemes : List Lexeme) :
    spelling (lexeme :: lexemes) = lexeme.text ++ spelling lexemes := rfl

theorem spelling_append (lexemes more : List Lexeme) :
    spelling (lexemes ++ more) = spelling lexemes ++ spelling more :=
  List.flatMap_append

/-- **The pieces of a text spell it.** -/
theorem spelling_ofText (text : List Char) : spelling (ofText text) = text := by
  induction length : text.length using Nat.strong_induction_on generalizing text with
  | _ n ih =>
    cases text with
    | nil => rfl
    | cons c rest =>
      have shorter : (rest.drop ((first c rest).text.length - 1)).length < n := by
        rw [← length, List.length_drop, List.length_cons]
        omega
      rw [ofText_cons, spelling_cons, ih _ shorter _ rfl, first_append]

/-- **A text broken off between two pieces is cut into the pieces it had on either side.** -/
theorem ofText_split {lexemes more : List Lexeme} {text : List Char}
    (cut : ofText text = lexemes ++ more) :
    text = spelling lexemes ++ spelling more ∧ ofText (spelling lexemes) = lexemes ∧
      ofText (spelling more) = more := by
  induction lexemes generalizing text with
  | nil =>
    rw [List.nil_append] at cut
    rw [← cut, spelling_ofText]
    exact ⟨rfl, rfl, rfl⟩
  | cons lexeme lexemes ih =>
    cases text with
    | nil => cases cut
    | cons c rest =>
      rw [ofText_cons, List.cons_append] at cut
      obtain ⟨rfl, later⟩ := List.cons.inj cut
      obtain ⟨left, before, after⟩ := ih later
      obtain ⟨cs, tail, text, rfl⟩ := text_first c rest
      have ends : (cs ++ tail).drop ((first c (cs ++ tail)).text.length - 1) = tail := by
        rw [text]
        simp
      rw [ends] at left
      subst left
      refine ⟨by simp [spelling_cons, text], ?_, after⟩
      -- The piece fits into what is left of the text, and so do the pieces after it.
      have same : first c (cs ++ spelling lexemes) = first c (cs ++ (spelling lexemes ++ spelling more)) := by
        rw [← List.append_assoc]
        refine first_of_fits ?_
        rw [List.append_assoc, text]
        exact ⟨spelling lexemes, rfl⟩
      rw [spelling_cons, text, List.cons_append, ofText_cons, same, text]
      simp [before]

/-- A piece of a text that is a token spells it. -/
theorem spells_of_mem_ofText {text : List Char} {lexeme : Lexeme} {token : Token}
    (listed : lexeme ∈ ofText text) (isToken : lexeme.piece = .token token) :
    Spells lexeme.text (some token) := by
  obtain ⟨c, rest, rfl⟩ := exists_first_of_mem_cut listed
  exact spells_first (by rw [isToken]; rfl)

end Lexeme

open Lexeme

/-! ## Places -/

theorem map_value_placeLexemes (offset : Nat) (lexemes : List Lexeme) :
    (placeLexemes offset lexemes).map (·.value) = lexemes := by
  induction lexemes generalizing offset with
  | nil => rfl
  | cons lexeme lexemes ih => rw [placeLexemes, List.map_cons, ih]

theorem placeLexemes_split {offset : Nat} {lexemes : List Lexeme} {placed more : List (Spanned Lexeme)}
    (whole : placeLexemes offset lexemes = placed ++ more) :
    ∃ before after, lexemes = before ++ after ∧ placeLexemes offset before = placed ∧
      placeLexemes (offset + Text.byteLength (spelling before)) after = more := by
  induction placed generalizing offset lexemes with
  | nil => exact ⟨[], lexemes, rfl, rfl, whole⟩
  | cons item placed ih =>
    cases lexemes with
    | nil => cases whole
    | cons lexeme lexemes =>
      rw [placeLexemes, List.cons_append] at whole
      obtain ⟨rfl, later⟩ := List.cons.inj whole
      obtain ⟨before, after, rfl, placed, more⟩ := ih later
      refine ⟨lexeme :: before, after, rfl, by rw [placeLexemes, placed], ?_⟩
      rw [spelling_cons, Text.byteLength_append, ← Nat.add_assoc]
      exact more

/-- The last of some pieces ends where they end. -/
theorem stop_of_placeLexemes {offset : Nat} {lexemes : List Lexeme} {placed : List (Spanned Lexeme)}
    {last : Spanned Lexeme} (whole : placeLexemes offset lexemes = placed ++ [last]) :
    last.stop = offset + Text.byteLength (spelling lexemes) := by
  obtain ⟨before, after, rfl, -, more⟩ := placeLexemes_split whole
  cases after with
  | nil => cases more
  | cons lexeme after =>
    rw [placeLexemes] at more
    obtain ⟨rfl, none⟩ := List.cons.inj more
    cases after with
    | nil => simp [spelling, Text.byteLength_append, Nat.add_assoc]
    | cons _ _ => cases none

/-- The token of a placed piece, with its line. -/
def Spanned.located? (index : Text.LineIndex) (item : Spanned Lexeme) : Option Located :=
  match item.value.piece with
  | .token token => some ⟨token, index.line item.start, item.start, item.stop⟩
  | _ => none

theorem Spanned.located?_eq_some_iff {index : Text.LineIndex} {item : Spanned Lexeme} {t : Located} :
    item.located? index = some t ↔ item.value.piece = .token t.token ∧
      t.line = index.line item.start ∧ t.start = item.start ∧ t.stop = item.stop := by
  obtain ⟨token, line, start, stop⟩ := t
  unfold located?
  cases item.value.piece <;> simp [eq_comm]

theorem locate_readTokens (index : Text.LineIndex) (text : List Char) :
    Program.locate index (readTokens text) =
      (placeLexemes 0 (ofText text)).filterMap (·.located? index) := by
  rw [Program.locate, readTokens, List.filterMap_filterMap]
  congr 1
  funext item
  unfold Spanned.located?
  cases item.value.piece <;> rfl

/-- Every piece of a text can be read when none of them is unknown. -/
theorem readable_iff (text : List Char) :
    (readTokens text).find? (·.value.isNone) = none ↔
      ∀ lexeme ∈ ofText text, lexeme.piece ≠ .unknown := by
  have pieces : ∀ lexeme, lexeme ∈ ofText text ↔
      ∃ item ∈ placeLexemes 0 (ofText text), item.value = lexeme := by
    intro lexeme
    rw [← List.mem_map, map_value_placeLexemes]
  simp only [pieces, List.find?_eq_none, readTokens, List.mem_filterMap]
  constructor
  · rintro read _ ⟨item, placed, rfl⟩ unknown
    exact read _ ⟨item, placed, by rw [unknown]; rfl⟩ rfl
  · rintro known _ ⟨item, placed, read⟩ missing
    obtain ⟨reading, piece, rfl⟩ := Option.map_eq_some_iff.mp read
    obtain rfl := Option.isNone_iff_eq_none.mp missing
    refine known _ ⟨item, placed, rfl⟩ ?_
    revert piece
    cases item.value.piece <;> simp [Piece.reading?]

/-! ## The tokens of a part -/

/-- The token in a text before which there is more. -/
def Located.moved (lines bytes : Nat) (t : Located) : Located :=
  ⟨t.token, t.line + lines, t.start + bytes, t.stop + bytes⟩

theorem Text.lineAfter_append (before pre : List Char) :
    lineAfter (before ++ pre) = lineAfter pre + before.count '\n' := by
  rw [lineAfter, lineAfter, List.count_append]
  omega

/-- A piece has the same token in a text and in a part of it. -/
theorem located?_append (before pre rest after : List Char) (lexeme : Lexeme) (bytes : Nat) :
    Spanned.located? (.ofText (before ++ (pre ++ rest ++ after)))
        ⟨lexeme, Text.byteLength (before ++ pre), Text.byteLength (before ++ pre) + bytes⟩ =
      (Spanned.located? (.ofText (pre ++ rest))
        ⟨lexeme, Text.byteLength pre, Text.byteLength pre + bytes⟩).map
          (.moved (before.count '\n') (Text.byteLength before)) := by
  have line : (Text.LineIndex.ofText (before ++ (pre ++ rest ++ after))).line
      (Text.byteLength (before ++ pre)) = Text.lineAfter pre + before.count '\n' := by
    have place := Text.line_ofText_append (before ++ pre) (rest ++ after)
    rw [Text.lineAfter_append] at place
    simpa using place
  have own := Text.line_ofText_append pre rest
  unfold Spanned.located?
  cases lexeme.piece with
  | token token =>
    simp only [line, own, Option.map_some, Located.moved, Option.some.injEq, Located.mk.injEq, true_and]
    rw [Text.byteLength_append]
    omega
  | blank | comment | unknown => rfl

/-- **The tokens of pieces in a text are those in a part of it**, moved by what stands before the part. -/
theorem located_append (before after : List Char) {part : List Char} (lexemes : List Lexeme)
    (pre : List Char) (whole : part = pre ++ spelling lexemes) :
    (placeLexemes (Text.byteLength (before ++ pre)) lexemes).filterMap
        (·.located? (.ofText (before ++ (part ++ after)))) =
      ((placeLexemes (Text.byteLength pre) lexemes).filterMap (·.located? (.ofText part))).map
        (.moved (before.count '\n') (Text.byteLength before)) := by
  -- The induction is on the pieces that are left; `pre` is what the pieces before them have spelled.
  induction lexemes generalizing pre with
  | nil => rfl
  | cons lexeme lexemes ih =>
    have first := located?_append before pre (spelling (lexeme :: lexemes)) after lexeme
      (Text.byteLength lexeme.text)
    have later := ih (pre ++ lexeme.text) (by rw [whole, spelling_cons, List.append_assoc])
    rw [← List.append_assoc before pre, Text.byteLength_append (before ++ pre),
      Text.byteLength_append pre] at later
    rw [← whole] at first
    rw [placeLexemes, placeLexemes, List.filterMap_cons, List.filterMap_cons, first, later]
    cases Spanned.located? (.ofText part) ⟨lexeme, Text.byteLength pre, _⟩ <;> rfl

/-- A part of a text that goes from one of its tokens to another one after it. -/
structure IsPart (text before part after : List Char) (first : Located) (inner : List Located)
    (last : Located) : Prop where
  whole : text = before ++ (part ++ after)
  start : first.start = Text.byteLength before
  line : first.line = Text.lineAfter before
  stop : last.stop = Text.byteLength (before ++ part)
  opens : ∃ word, word <+: part ∧ Spells word (some first.token)
  closes : ∃ word, word <:+ part ∧ Spells word (some last.token)
  pieces : ∀ lexeme ∈ ofText part, lexeme ∈ ofText text
  tokens : first :: (inner ++ [last]) = (Program.locate (.ofText part) (readTokens part)).map
    (.moved (before.count '\n') (Text.byteLength before))

/-- A token comes from one of the pieces. -/
theorem exists_piece {index : Text.LineIndex} {placed : List (Spanned Lexeme)} {ts us : List Located}
    {t : Located} (tokens : placed.filterMap (·.located? index) = ts ++ t :: us) :
    ∃ before item after, placed = before ++ item :: after ∧
      before.filterMap (·.located? index) = ts ∧ item.located? index = some t ∧
      after.filterMap (·.located? index) = us := by
  obtain ⟨first, rest, rfl, rfl, later⟩ := List.filterMap_eq_append_iff.mp tokens
  obtain ⟨skipped, item, after, rfl, nothing, here, rfl⟩ := List.filterMap_eq_cons_iff.mp later
  refine ⟨first ++ skipped, item, after, by simp, ?_, here, rfl⟩
  rw [List.filterMap_append, List.filterMap_eq_nil_iff.mpr nothing, List.append_nil]

/-- **The tokens from one token of a text to another are the tokens of the text from one to the other.** -/
theorem exists_part {text : List Char} {ts inner us : List Located} {first last : Located}
    (tokens : Program.locate (.ofText text) (readTokens text) = ts ++ first :: (inner ++ last :: us)) :
    ∃ before part after, IsPart text before part after first inner last := by
  rw [locate_readTokens] at tokens
  obtain ⟨placed, item, rest, whole, -, head, tokens⟩ := exists_piece tokens
  obtain ⟨middle, item', rest, rfl, inside, foot, -⟩ := exists_piece tokens
  have split : placeLexemes 0 (ofText text) = placed ++ ((item :: middle ++ [item']) ++ rest) := by
    simpa using whole
  -- The pieces from the one token to the other are the part; it is cut into them when it stands alone.
  obtain ⟨before, _, cut, -, split⟩ := placeLexemes_split split
  obtain ⟨part, after, rfl, here, -⟩ := placeLexemes_split split
  obtain ⟨text_eq, -, cut'⟩ := ofText_split cut
  obtain ⟨rest_eq, alone, -⟩ := ofText_split cut'
  rw [Nat.zero_add] at here
  rw [rest_eq] at text_eq
  have listed : ∀ lexeme ∈ part, lexeme ∈ ofText text := by
    intro lexeme member
    simp [cut, member]
  have values : part = item.value :: (middle.map (·.value) ++ [item'.value]) := by
    rw [← map_value_placeLexemes (Text.byteLength (spelling before)) part, here]
    simp
  obtain ⟨piece, line, start, -⟩ := Spanned.located?_eq_some_iff.mp head
  obtain ⟨piece', -, -, stop⟩ := Spanned.located?_eq_some_iff.mp foot
  have begins : item.start = Text.byteLength (spelling before) := by
    rw [values, placeLexemes] at here
    exact congrArg Spanned.start (List.cons.inj here).1.symm
  refine ⟨spelling before, spelling part, spelling after, text_eq, start.trans begins, ?_, ?_, ?_, ?_,
    alone.symm ▸ listed, ?_⟩
  · rw [line, begins, text_eq, Text.line_ofText_append]
  · rw [stop, stop_of_placeLexemes here, Text.byteLength_append]
  · refine ⟨item.value.text, ?_, spells_of_mem_ofText (listed _ ?_) piece⟩
    · rw [values, spelling_cons]
      exact List.prefix_append _ _
    · simp [values]
  · refine ⟨item'.value.text, ?_, spells_of_mem_ofText (listed _ ?_) piece'⟩
    · rw [values, ← List.cons_append, spelling_append, spelling_cons item'.value]
      simp only [spelling, List.flatMap_nil, List.append_nil, List.suffix_append]
    · simp [values]
  · have own : first :: (inner ++ [last]) =
        (item :: middle ++ [item']).filterMap (·.located? (.ofText text)) := by
      simp [head, inside, foot]
    have moved := located_append (spelling before) (spelling after) part [] (List.nil_append _).symm
    rw [List.append_nil, ← text_eq, here, ← own] at moved
    rw [moved, locate_readTokens, alone]
    rfl

end Dataflow
