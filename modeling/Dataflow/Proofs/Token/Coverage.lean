import Dataflow.Proofs.Token.Rules
import Mathlib.Data.List.Forall2
import Mathlib.Data.List.TakeWhile

/-!
# The tokens of a text cover it

The spans of the tokens of a text, the pieces that no rule reads included, stand in it one after the
other, and what is between them is skipped (`tokens_cover_text`). Each part of the statement is about
the slices of the text between two offsets:

* a slice at a span spells the token there and no other (`Spells`), so that a token depends on nothing
  around it;
* a slice between two spans is a sequence of blanks and comments (`Gap`);
* each of these pieces is the longest word any rule has at its start (`Longest`), except a character
  with which no word starts.

The argument goes through one decomposition of the text (`Spaced`): gap, token, gap, token, and a last
gap. What one cut does (`spells_first`, `skipped_first`, `longest_first`) extends it by one piece, and
a whole text is cut by induction (`spaced_tokensFrom`).
-/

set_option autoImplicit false

namespace Dataflow

/-! ## Slices -/

namespace Text

/-- The bytes of a text after those of its first character. -/
theorem exists_byteLength_cons (c : Char) (rest : List Char) :
    ∃ count, byteLength (c :: rest) = count + 1 ∧ count + 1 - c.utf8Size = byteLength rest := by
  have size := c.utf8Size_pos
  refine ⟨byteLength (c :: rest) - 1, ?_, ?_⟩
  · rw [byteLength_cons]
    omega
  · rw [byteLength_cons]
    omega

theorem dropBytes_append (pre post : List Char) : dropBytes (byteLength pre) (pre ++ post) = post := by
  induction pre with
  | nil => exact dropBytes.eq_1 post
  | cons c pre ih =>
    obtain ⟨count, length, left⟩ := exists_byteLength_cons c pre
    rw [length, List.cons_append, dropBytes, left, ih]

theorem takeBytes_append (pre post : List Char) : takeBytes (byteLength pre) (pre ++ post) = pre := by
  induction pre with
  | nil => exact takeBytes.eq_1 post
  | cons c pre ih =>
    obtain ⟨count, length, left⟩ := exists_byteLength_cons c pre
    rw [length, List.cons_append, takeBytes, left, ih]

/-- The slice of a text at a part of it is the part. -/
theorem slice_append (pre part post : List Char) :
    slice (pre ++ (part ++ post)) (byteLength pre) (byteLength (pre ++ part)) = part := by
  rw [slice, dropBytes_append, byteLength_append, Nat.add_sub_cancel_left, takeBytes_append]

theorem byteLength_pos {text : List Char} (nonempty : text ≠ []) : 0 < byteLength text := by
  cases text with
  | nil => exact absurd rfl nonempty
  | cons c rest => exact Nat.lt_of_lt_of_le c.utf8Size_pos (Nat.le_add_right _ _)

theorem byteLength_le_of_prefix {pre text : List Char} (start : pre <+: text) :
    byteLength pre ≤ byteLength text := by
  obtain ⟨rest, rfl⟩ := start
  rw [byteLength_append]
  exact Nat.le_add_right _ _

/-- The offsets between two characters, at the start or at the end of a text. -/
def IsBoundary (text : List Char) (offset : Nat) : Prop :=
  ∃ pre post, text = pre ++ post ∧ byteLength pre = offset

end Text

/-! ## What one cut does -/

namespace Lexeme

/-- Pieces that are skipped where `rest` follows: blanks, a line comment up to the end of its line, and
a block comment up to its first closer. -/
inductive Skipped : List Char → List Char → Prop
  | blanks {blanks rest : List Char} : blanks ≠ [] →
      (∀ c ∈ blanks, c ∈ [' ', '\t', '\r', '\n', '\x0c']) → Skipped blanks rest
  | lineComment {body rest : List Char} : (∀ c ∈ body, c ∉ ['\n', '\r']) →
      (∀ c, rest.head? = some c → c ∈ ['\n', '\r']) → Skipped ('/' :: '/' :: body) rest
  | blockComment {body rest : List Char} : ¬ ['*', '/'] <:+: body ++ ['*'] →
      Skipped ('/' :: '*' :: (body ++ ['*', '/'])) rest

/-- A piece that is a word of a rule, where no rule has a longer one. -/
def Longest (piece rest : List Char) : Prop :=
  (∃ rule : Rule, piece ∈ rule.language) ∧
    ∀ (rule : Rule) (word : List Char), word ∈ rule.language → word <+: piece ++ rest →
      word.length ≤ piece.length

/-- What a piece of text reads as: a token, or nothing when it is a number too large for a word or a
character with which no word starts. -/
inductive Spells : List Char → Option Token → Prop
  | keyword {spelling : String} {word : Keyword} : (spelling, word) ∈ Keyword.spellings →
      Spells spelling.toList (some (.keyword word))
  | identifier {word : List Char} : word ∈ Rule.identifier.language →
      (∀ entry ∈ Keyword.spellings, entry.1.toList ≠ word) →
      Spells word (some (.identifier (String.ofList word)))
  | int {digits : List Char} {value : Int64} : digits ∈ Rule.digits.language →
      value.toInt = Nat.ofDigitChars 10 digits 0 → Spells digits (some (.int value))
  | overLarge {digits : List Char} : digits ∈ Rule.digits.language →
      2 ^ 63 ≤ Nat.ofDigitChars 10 digits 0 → Spells digits none
  | symbol (mark : Symbol) : Spells mark.text.toList (some (.symbol mark))
  | stray {c : Char} : Stray c → Spells [c] none

/-- The first piece has the first character and is a start of the text. -/
theorem text_first (c : Char) (rest : List Char) :
    ∃ cs after, (first c rest).text = c :: cs ∧ rest = cs ++ after := by
  have ran : ∀ p : Char → Bool, ∃ after, rest = rest.takeWhile p ++ after := fun p =>
    ⟨_, (List.takeWhile_append_dropWhile).symm⟩
  rw [first_eq]
  cases known : classOf c with
  | blank =>
    obtain ⟨after, whole⟩ := ran isBlank
    exact ⟨_, after, rfl, whole⟩
  | slash =>
    obtain rfl := classOf_eq_slash_iff.mp known
    dsimp only
    unfold ofSlash
    split
    · exact ⟨_, _, rfl, congrArg _ (List.takeWhile_append_dropWhile).symm⟩
    · split
      · next closed =>
        obtain ⟨⟨after, whole⟩, -⟩ := throughClose?_eq_some_iff.mp closed
        exact ⟨_, after, rfl, congrArg _ whole.symm⟩
      · exact ⟨[], _, rfl, rfl⟩
    · exact ⟨[], _, rfl, rfl⟩
  | digit =>
    obtain ⟨after, whole⟩ := ran Char.isDigit
    exact ⟨_, after, text_ofDigits _, whole⟩
  | letter =>
    obtain ⟨after, whole⟩ := ran Text.isIdentifierContinue
    exact ⟨_, after, text_ofWord _, whole⟩
  | other =>
    rw [text_ofMark]
    split
    · next double =>
      obtain ⟨after, rfl⟩ := List.head?_eq_some_iff.mp double.2
      exact ⟨['='], after, rfl, rfl⟩
    · exact ⟨[], rest, rfl, rfl⟩

theorem first_append (c : Char) (rest : List Char) :
    (first c rest).text ++ rest.drop ((first c rest).text.length - 1) = c :: rest := by
  obtain ⟨cs, after, text, rfl⟩ := text_first c rest
  rw [text]
  simp

theorem text_of_ofChar? {c : Char} {mark : Symbol} (known : Symbol.ofChar? c = some mark) :
    mark.text.toList = [c] := by
  unfold Symbol.ofChar? at known
  split at known <;> cases known <;> rfl

theorem text_of_withEqual? {c : Char} {mark : Symbol} (known : Symbol.withEqual? c = some mark) :
    mark.text.toList = [c, '='] := by
  unfold Symbol.withEqual? at known
  split at known <;> cases known <;> rfl

theorem spells_ofSlash {rest : List Char} {reading : Option Token}
    (read : (ofSlash rest).piece.reading? = some reading) : Spells (ofSlash rest).text reading := by
  unfold ofSlash at read ⊢
  split at read
  · cases read
  · split at read
    · cases read
    · cases read
      exact .symbol .slash
  · cases read
    exact .symbol .slash

theorem spells_ofDigits {digits : List Char} {reading : Option Token}
    (member : digits ∈ Rule.digits.language)
    (read : (ofDigits digits).piece.reading? = some reading) : Spells digits reading := by
  unfold ofDigits at read
  split at read
  · next value found =>
    cases read
    exact .int member (Checked.ofInt?_eq_some_iff.mp found)
  · next outside =>
    cases read
    refine .overLarge member ?_
    rcases Checked.ofInt?_eq_none_iff.mp outside with below | above
    · exact absurd below (by unfold Checked.least; omega)
    · unfold Checked.greatest at above
      change 2 ^ 63 ≤ decimalValue digits
      omega

theorem spells_ofWord {word : List Char} {reading : Option Token}
    (member : word ∈ Rule.identifier.language)
    (read : (ofWord word).piece.reading? = some reading) : Spells word reading := by
  simp only [ofWord] at read
  split at read
  · next key found =>
    cases read
    obtain ⟨before, after, listed, -⟩ := List.lookup_eq_some_iff.mp found
    have spelled : Spells (String.ofList word).toList (some (.keyword key)) :=
      .keyword (by rw [listed]; simp)
    rwa [String.toList_ofList] at spelled
  · next missing =>
    cases read
    refine .identifier member fun entry listed same => ?_
    have other := List.lookup_eq_none_iff.mp missing entry listed
    rw [← same, String.ofList_toList] at other
    simp at other

theorem spells_ofMark {c : Char} {rest : List Char} {reading : Option Token} (other : classOf c = .other)
    (read : (ofMark c rest).piece.reading? = some reading) : Spells (ofMark c rest).text reading := by
  unfold ofMark at read ⊢
  split at read
  · next mark _ known =>
    cases read
    exact text_of_withEqual? known ▸ .symbol mark
  · split at read
    · next mark known =>
      cases read
      exact text_of_ofChar? known ▸ .symbol mark
    · next unknown =>
      cases read
      exact .stray (stray_of_ofChar?_eq_none other unknown)

/-- **A piece that is not skipped spells what it is read as.** -/
theorem spells_first {c : Char} {rest : List Char} {reading : Option Token}
    (read : (first c rest).piece.reading? = some reading) : Spells (first c rest).text reading := by
  rw [first_eq] at read ⊢
  cases known : classOf c with
  | blank =>
    rw [known] at read
    cases read
  | slash =>
    rw [known] at read
    exact spells_ofSlash read
  | digit =>
    rw [known] at read
    rw [text_ofDigits]
    refine spells_ofDigits (cons_mem_one_mul_kstar_iff.mpr ⟨?_, ?_⟩) read
    · exact classOf_eq_digit_iff.mp known
    · exact List.all_eq_true.mp (List.all_takeWhile ..)
  | letter =>
    rw [known] at read
    rw [text_ofWord]
    refine spells_ofWord (cons_mem_one_mul_kstar_iff.mpr ⟨?_, ?_⟩) read
    · exact classOf_eq_letter_iff.mp known
    · exact List.all_eq_true.mp (List.all_takeWhile ..)
  | other =>
    rw [known] at read
    exact spells_ofMark known read

/-- **A piece that is skipped is one that may be, before what follows it.** -/
theorem skipped_first {c : Char} {rest after : List Char}
    (skipped : (first c rest).piece.reading? = none)
    (whole : (first c rest).text ++ after = c :: rest) : Skipped (first c rest).text after := by
  rw [first_eq] at skipped whole ⊢
  cases known : classOf c with
  | blank =>
    have blank : ∀ d ∈ c :: rest.takeWhile isBlank, isBlank d = true :=
      List.forall_mem_cons.mpr ⟨classOf_eq_blank_iff.mp known, List.all_eq_true.mp (List.all_takeWhile ..)⟩
    exact .blanks (List.cons_ne_nil _ _) fun d listed => isBlank_iff.mp (blank d listed)
  | slash =>
    obtain rfl := classOf_eq_slash_iff.mp known
    rw [known] at skipped whole
    dsimp only at skipped whole ⊢
    unfold ofSlash at skipped whole ⊢
    split at skipped
    · next rest =>
      have kept : ∀ d ∈ rest.takeWhile (!isLineEnd ·), isLineEnd d = false := fun d listed =>
        Bool.not_eq_true' _ ▸ List.all_eq_true.mp (List.all_takeWhile ..) d listed
      refine .lineComment (fun d listed ended => ?_) ?_
      · have stays := kept d listed
        rw [isLineEnd_iff.mpr ended] at stays
        cases stays
      -- What follows is what is left of the text where the comment stops.
      have left : rest.takeWhile (!isLineEnd ·) ++ after =
          rest.takeWhile (!isLineEnd ·) ++ rest.dropWhile (!isLineEnd ·) := by
        rw [List.takeWhile_append_dropWhile]
        exact (List.cons.inj (List.cons.inj whole).2).2
      intro d starts
      have stopped := List.head?_dropWhile_not (!isLineEnd ·) rest
      rw [← List.append_cancel_left left, starts] at stopped
      exact isLineEnd_iff.mp (by simpa using stopped)
    · split at skipped
      · next closed =>
        obtain ⟨-, self⟩ := throughClose?_eq_some_iff.mp closed
        obtain ⟨body, rfl, single⟩ := throughClose?_self_iff.mp self
        exact .blockComment single
      · cases skipped
    · cases skipped
  | digit =>
    rw [known] at skipped
    dsimp only [ofDigits] at skipped
    split at skipped <;> cases skipped
  | letter =>
    rw [known] at skipped
    dsimp only [ofWord] at skipped
    split at skipped <;> cases skipped
  | other =>
    rw [known] at skipped
    dsimp only at skipped
    unfold ofMark at skipped
    split at skipped
    · cases skipped
    · split at skipped <;> cases skipped

/-- What is skipped is a word of a rule. -/
theorem Skipped.matched {piece rest : List Char} (skipped : Skipped piece rest) :
    ∃ rule : Rule, piece ∈ rule.language := by
  cases skipped with
  | blanks nonempty blank =>
    obtain ⟨c, cs, rfl⟩ := List.exists_cons_of_ne_nil nonempty
    refine ⟨.blanks, ?_⟩
    rw [language_blanks]
    exact cons_mem_one_mul_kstar_iff.mpr
      (List.forall_mem_cons.mp fun d listed => isBlank_iff.mpr (blank d listed))
  | lineComment inside _ =>
    refine ⟨.lineComment, mem_lineComment_iff.mpr ⟨_, rfl, fun d listed => ?_⟩⟩
    exact Bool.eq_false_iff.mpr fun ended => inside d listed (isLineEnd_iff.mp ended)
  | blockComment single =>
    exact ⟨.blockComment, mem_blockComment_iff.mpr
      ⟨_, rfl, throughClose?_self_iff.mpr ⟨_, rfl, single⟩⟩⟩

/-- What spells something is a word of a rule or a character with which no word starts. -/
theorem Spells.matched {piece : List Char} {reading : Option Token} (spells : Spells piece reading) :
    (∃ rule : Rule, piece ∈ rule.language) ∨ ∃ c, piece = [c] ∧ Stray c ∧ reading = none := by
  cases spells with
  | @keyword spelling word listed => exact .inl ⟨.keyword spelling word, listed, rfl⟩
  | identifier member _ => exact .inl ⟨.identifier, member⟩
  | int member _ => exact .inl ⟨.digits, member⟩
  | overLarge member _ => exact .inl ⟨.digits, member⟩
  | symbol mark => exact .inl ⟨.symbol mark, rfl⟩
  | @stray c stray => exact .inr ⟨c, rfl, stray, rfl⟩

/-- **A first piece that is a word of a rule is the longest there.** -/
theorem longest_first {c : Char} {rest after : List Char} {rule : Rule}
    (matched : (first c rest).text ∈ rule.language)
    (whole : (first c rest).text ++ after = c :: rest) : Longest (first c rest).text after := by
  refine ⟨⟨rule, matched⟩, ?_⟩
  intro other word member start
  rw [whole] at start
  exact (prefix_first member start).length_le

theorem first_of_mem_identifier {c : Char} {cs : List Char}
    (member : c :: cs ∈ Rule.identifier.language) : first c cs = ofWord (c :: cs) := by
  obtain ⟨start, inside⟩ := cons_mem_one_mul_kstar_iff.mp member
  rw [first_eq, classOf_eq_letter_iff.mpr start]
  dsimp only
  rw [List.takeWhile_eq_self_iff.mpr inside]

theorem first_of_mem_digits {c : Char} {cs : List Char} (member : c :: cs ∈ Rule.digits.language) :
    first c cs = ofDigits (c :: cs) := by
  obtain ⟨start, inside⟩ := cons_mem_one_mul_kstar_iff.mp member
  rw [first_eq, classOf_eq_digit_iff.mpr start]
  dsimp only
  rw [List.takeWhile_eq_self_iff.mpr inside]

/-- **A piece that spells something is read whole, and as what it spells.** -/
theorem first_of_spells {piece : List Char} {reading : Option Token} (spells : Spells piece reading) :
    ∃ c cs, piece = c :: cs ∧ (first c cs).piece.reading? = some reading := by
  cases spells with
  | @keyword spelling word listed =>
    have member : spelling.toList ∈ Rule.identifier.language :=
      keyword_le_identifier (show _ ∈ (Rule.keyword spelling word).language from ⟨listed, rfl⟩)
    obtain ⟨c, cs, whole, -⟩ := exists_cons_of_mem_language member
    rw [whole] at member
    refine ⟨c, cs, whole, ?_⟩
    have spelled : ∀ entry ∈ Keyword.spellings, Keyword.ofText? entry.1 = some entry.2 := by decide
    have known := spelled _ listed
    rw [first_of_mem_identifier member, ← whole]
    simp only [ofWord, String.ofList_toList, known]
    rfl
  | identifier member unlisted =>
    obtain ⟨c, cs, rfl, -⟩ := exists_cons_of_mem_language member
    refine ⟨c, cs, rfl, ?_⟩
    have unknown : Keyword.ofText? (String.ofList (c :: cs)) = none := by
      refine List.lookup_eq_none_iff.mpr fun entry listed => ?_
      refine bne_iff_ne.mpr fun same => unlisted entry listed ?_
      rw [← same, String.toList_ofList]
    rw [first_of_mem_identifier member]
    simp only [ofWord, unknown]
    rfl
  | @int digits value member same =>
    obtain ⟨c, cs, rfl, -⟩ := exists_cons_of_mem_language member
    refine ⟨c, cs, rfl, ?_⟩
    have known : Checked.ofInt? (decimalValue (c :: cs)) = some value :=
      Checked.ofInt?_eq_some_iff.mpr same
    rw [first_of_mem_digits member]
    simp only [ofDigits, known]
    rfl
  | @overLarge digits member large =>
    obtain ⟨c, cs, rfl, -⟩ := exists_cons_of_mem_language member
    refine ⟨c, cs, rfl, ?_⟩
    have outside : Checked.ofInt? (decimalValue (c :: cs)) = none := by
      refine Checked.ofInt?_eq_none_iff.mpr (.inr ?_)
      change 2 ^ 63 ≤ decimalValue (c :: cs) at large
      unfold Checked.greatest
      omega
    rw [first_of_mem_digits member]
    simp only [ofDigits, outside]
    rfl
  | symbol mark => cases mark <;> exact ⟨_, _, rfl, by decide +kernel⟩
  | @stray c stray =>
    refine ⟨c, [], rfl, ?_⟩
    -- The piece starts with the character, so it is no word of a rule.
    have unmatched : ¬ ∃ rule : Rule, (first c []).text ∈ rule.language := by
      rintro ⟨rule, member⟩
      obtain ⟨cs, -, text, -⟩ := text_first c []
      exact stray rule _ member (by rw [text]; rfl)
    cases read : (first c []).piece.reading? with
    | none => exact absurd (skipped_first read (first_append c [])).matched unmatched
    | some reading =>
      rcases (spells_first read).matched with matched | ⟨_, -, -, rfl⟩
      · exact absurd matched unmatched
      · rfl

theorem Spells.unique {piece : List Char} {reading reading' : Option Token}
    (spells : Spells piece reading) (spells' : Spells piece reading') : reading = reading' := by
  obtain ⟨c, cs, whole, read⟩ := first_of_spells spells
  obtain ⟨c', cs', whole', read'⟩ := first_of_spells spells'
  cases whole.symm.trans whole'
  exact Option.some.inj (read.symm.trans read')

/-! ## Gaps and tokens -/

/-- Text that is skipped piece by piece before `rest`. -/
inductive Gap : List Char → List Char → Prop
  | nil {rest : List Char} : Gap [] rest
  | skip {piece gap rest : List Char} : Skipped piece (gap ++ rest) → Longest piece (gap ++ rest) →
      Gap gap rest → Gap (piece ++ gap) rest

/-- Text that is read before `rest`: it spells what it is read as, and it is the longest word there
unless no word starts with its character. -/
structure IsRead (piece rest : List Char) (reading : Option Token) : Prop where
  spells : Spells piece reading
  longest : Longest piece rest ∨ ∃ c, piece = [c] ∧ Stray c

theorem IsRead.nonempty {piece rest : List Char} {reading : Option Token}
    (read : IsRead piece rest reading) : piece ≠ [] := by
  obtain ⟨c, cs, rfl, -⟩ := first_of_spells read.spells
  exact List.cons_ne_nil c cs

theorem isRead_first {c : Char} {rest after : List Char} {reading : Option Token}
    (read : (first c rest).piece.reading? = some reading)
    (whole : (first c rest).text ++ after = c :: rest) : IsRead (first c rest).text after reading := by
  refine ⟨spells_first read, ?_⟩
  rcases (spells_first read).matched with ⟨rule, matched⟩ | ⟨d, single, stray, -⟩
  · exact .inl (longest_first matched whole)
  · exact .inr ⟨d, single, stray⟩

end Lexeme

open Lexeme

/-- Right after `pre`, a text is a sequence of gaps with the spans of tokens between them. -/
inductive Spaced : List Char → List Char → List (Spanned (Option Token)) → Prop
  | last {pre gap : List Char} : Gap gap [] → Spaced pre gap []
  | token {pre gap piece rest : List Char} {reading : Option Token}
      {items : List (Spanned (Option Token))} : Gap gap (piece ++ rest) → IsRead piece rest reading →
      Spaced (pre ++ gap ++ piece) rest items →
      Spaced pre (gap ++ (piece ++ rest)) (⟨reading, Text.byteLength (pre ++ gap),
        Text.byteLength (pre ++ gap ++ piece)⟩ :: items)

/-- A skipped piece widens the first gap. -/
theorem Spaced.skip {pre piece text : List Char} {items : List (Spanned (Option Token))}
    (skipped : Skipped piece text) (longest : Longest piece text)
    (spaced : Spaced (pre ++ piece) text items) : Spaced pre (piece ++ text) items := by
  cases spaced with
  | last gap =>
    rw [← List.append_nil text] at skipped longest
    exact .last (.skip skipped longest gap)
  | @token _ gap word rest reading items skips read later =>
    rw [← List.append_assoc]
    have widened : Spaced pre (piece ++ gap ++ (word ++ rest)) _ :=
      .token (.skip skipped longest skips) read (by simpa using later)
    simpa using widened

theorem tokensFrom_cons (offset : Nat) (c : Char) (rest : List Char) :
    tokensFrom offset (c :: rest) =
      ((first c rest).piece.reading?.map fun reading =>
        ⟨reading, offset, offset + Text.byteLength (first c rest).text⟩).toList ++
      tokensFrom (offset + Text.byteLength (first c rest).text)
        (rest.drop ((first c rest).text.length - 1)) := by
  rw [tokensFrom, ofText_cons, placeLexemes, List.filterMap_cons]
  cases (first c rest).piece.reading? <;> rfl

/-- **The tokens of a text are spaced by gaps.** -/
theorem spaced_tokensFrom (pre text : List Char) :
    Spaced pre text (tokensFrom (Text.byteLength pre) text) := by
  -- Each cut leaves a shorter text, which is what the induction is on.
  induction length : text.length using Nat.strong_induction_on generalizing pre text with
  | _ n ih =>
    cases text with
    | nil => exact .last .nil
    | cons c rest =>
      have whole := first_append c rest
      have shorter : (rest.drop ((first c rest).text.length - 1)).length < n := by
        rw [← length, List.length_drop, List.length_cons]
        omega
      have later := ih _ shorter (pre ++ (first c rest).text) _ rfl
      rw [Text.byteLength_append] at later
      rw [tokensFrom_cons]
      cases read : (first c rest).piece.reading? with
      | none =>
        have skipped := skipped_first read whole
        obtain ⟨rule, matched⟩ := skipped.matched
        have spaced := later.skip skipped (longest_first matched whole)
        rw [whole] at spaced
        exact spaced
      | some reading =>
        have spaced : Spaced pre ([] ++ ((first c rest).text ++ _)) _ :=
          .token .nil (isRead_first read whole) (by simpa using later)
        simpa [whole, Text.byteLength_append] using spaced

theorem spaced_readTokens (text : List Char) : Spaced [] text (readTokens text) :=
  spaced_tokensFrom [] text

/-! ## Spans -/

/-- Every span of a spaced text is that of a part of the text that is read. -/
theorem Spaced.exists_part {pre text : List Char} {items : List (Spanned (Option Token))}
    (spaced : Spaced pre text items) {item : Spanned (Option Token)} (listed : item ∈ items) :
    ∃ before piece after, pre ++ text = before ++ (piece ++ after) ∧ pre <+: before ∧
      item.start = Text.byteLength before ∧ item.stop = Text.byteLength (before ++ piece) ∧
      IsRead piece after item.value := by
  induction spaced with
  | last _ => cases listed
  | @token pre gap piece rest reading items _ read _ ih =>
    rcases List.mem_cons.mp listed with rfl | later
    · exact ⟨pre ++ gap, piece, rest, by simp, List.prefix_append pre gap, rfl, rfl, read⟩
    · obtain ⟨before, word, after, whole, inside, start, stop, read⟩ := ih later
      refine ⟨before, word, after, by simpa using whole, ?_, start, stop, read⟩
      exact (List.prefix_append pre (gap ++ piece)).trans (by simpa using inside)

/-- Spans have text. -/
theorem Spaced.nonempty {pre text : List Char} {items : List (Spanned (Option Token))}
    (spaced : Spaced pre text items) : ∀ item ∈ items, item.start < item.stop := by
  intro item listed
  obtain ⟨before, piece, _, _, -, start, stop, read⟩ := spaced.exists_part listed
  have positive := Text.byteLength_pos read.nonempty
  rw [start, stop, Text.byteLength_append]
  omega

/-- Spans follow one another. -/
theorem Spaced.disjoint {pre text : List Char} {items : List (Spanned (Option Token))}
    (spaced : Spaced pre text items) : items.Pairwise fun a b => a.stop ≤ b.start := by
  induction spaced with
  | last _ => exact .nil
  | token _ _ later ih =>
    refine .cons ?_ ih
    intro item listed
    obtain ⟨before, _, _, _, inside, start, -⟩ := later.exists_part listed
    rw [start]
    exact Text.byteLength_le_of_prefix inside

/-- What stands between the spans is skipped. -/
theorem Spaced.gaps {pre text full : List Char} {items : List (Spanned (Option Token))}
    (spaced : Spaced pre text items) (whole : full = pre ++ text) :
    List.Forall₂ (fun start stop => Gap (Text.slice full start stop) (Text.dropBytes stop full))
      (Text.byteLength pre :: items.map (·.stop)) (items.map (·.start) ++ [Text.byteLength full]) := by
  induction spaced with
  | @last pre gap skips =>
    have slice := Text.slice_append pre gap []
    have rest := Text.dropBytes_append (pre ++ gap) []
    rw [List.append_nil] at slice rest
    subst whole
    refine .cons ?_ .nil
    rw [slice, rest]
    exact skips
  | @token pre gap piece rest reading items skips _ _ ih =>
    have slice := Text.slice_append pre gap (piece ++ rest)
    have after := Text.dropBytes_append (pre ++ gap) (piece ++ rest)
    rw [List.append_assoc] at after
    refine .cons ?_ (ih (by simpa using whole))
    rw [whole]
    dsimp only
    rw [slice, after]
    exact skips

/-- The spans of the tokens of a text, and what they are read as. -/
structure Covers (text : List Char) (items : List (Spanned (Option Token))) : Prop where
  nonempty : ∀ item ∈ items, item.start < item.stop
  increasing : items.Pairwise fun a b => a.start < b.start
  disjoint : items.Pairwise fun a b => a.stop ≤ b.start
  inside : ∀ item ∈ items, item.stop ≤ Text.byteLength text
  boundaries : ∀ item ∈ items, Text.IsBoundary text item.start ∧ Text.IsBoundary text item.stop
  /-- Before the first token, between two tokens and after the last, text is skipped. -/
  gaps : List.Forall₂ (fun start stop => Gap (Text.slice text start stop) (Text.dropBytes stop text))
    (0 :: items.map (·.stop)) (items.map (·.start) ++ [Text.byteLength text])
  /-- A token is what its own slice spells, and nothing else. -/
  kinds : ∀ item ∈ items, ∀ reading, Spells (Text.slice text item.start item.stop) reading ↔
    item.value = reading
  longest : ∀ item ∈ items,
    Longest (Text.slice text item.start item.stop) (Text.dropBytes item.stop text) ∨
      ∃ c, Text.slice text item.start item.stop = [c] ∧ Stray c

/-- **Reading loses and invents nothing**: the tokens of a text cover it. -/
theorem tokens_cover_text (text : List Char) : Covers text (readTokens text) := by
  have spaced := spaced_readTokens text
  -- A token is the part of the text at its span, and reading is about that part.
  have parts : ∀ item ∈ readTokens text, ∃ before piece after, text = before ++ (piece ++ after) ∧
      item.start = Text.byteLength before ∧ item.stop = Text.byteLength (before ++ piece) ∧
      Text.slice text item.start item.stop = piece ∧ Text.dropBytes item.stop text = after ∧
      IsRead piece after item.value := by
    intro item listed
    obtain ⟨before, piece, after, whole, -, start, stop, read⟩ := spaced.exists_part listed
    rw [List.nil_append] at whole
    refine ⟨before, piece, after, whole, start, stop, ?_, ?_, read⟩
    · rw [whole, start, stop, Text.slice_append]
    · rw [whole, stop, ← List.append_assoc, Text.dropBytes_append]
  constructor
  · exact spaced.nonempty
  · refine spaced.disjoint.imp_of_mem ?_
    intro a b first _ ordered
    exact Nat.lt_of_lt_of_le (spaced.nonempty a first) ordered
  · exact spaced.disjoint
  · intro item listed
    obtain ⟨before, piece, after, whole, _, stop, _⟩ := parts item listed
    rw [stop, whole, ← List.append_assoc]
    exact Text.byteLength_le_of_prefix (List.prefix_append _ after)
  · intro item listed
    obtain ⟨before, piece, after, whole, start, stop, _⟩ := parts item listed
    exact ⟨⟨before, _, whole, start.symm⟩, ⟨before ++ piece, after, by simpa using whole, stop.symm⟩⟩
  · exact spaced.gaps rfl
  · intro item listed reading
    obtain ⟨_, piece, _, _, _, _, slice, _, read⟩ := parts item listed
    rw [slice]
    constructor
    · exact fun spells => read.spells.unique spells
    · rintro rfl
      exact read.spells
  · intro item listed
    obtain ⟨_, piece, after, _, _, _, slice, rest, read⟩ := parts item listed
    rw [slice, rest]
    exact read.longest

end Dataflow
