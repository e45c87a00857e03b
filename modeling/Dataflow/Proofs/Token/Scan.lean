import Dataflow.Program
import Dataflow.Proofs.Text.Position

/-!
# Reading a text piece by piece

`Reads pre text tokens rest` says that right after the characters `pre`, the tokens of `text` are
`tokens`, with their lines and byte offsets, when `rest` follows. Blanks and tokens are read one after
the other, so readings of consecutive texts compose (`Reads.append`), and a reading of a whole text is
what the program reads (`Reads.readTokens`).

A word and a number are read whole when what follows cannot continue them (`first_word`,
`first_digits`). Conversely, every token of a text can be spelled: its name is a name, and its number
is not negative (`isSpelled_of_mem_locate`).
-/

set_option autoImplicit false

namespace Dataflow

/-! ## Lines -/

namespace Text

/-- The line of what follows a text that starts on line one. -/
def lineAfter (pre : List Char) : Nat := pre.count '\n' + 1

theorem byteLength_append (as bs : List Char) :
    byteLength (as ++ bs) = byteLength as + byteLength bs := by
  induction as with
  | nil => simp [byteLength]
  | cons a as ih =>
    simp only [byteLength, List.cons_append, List.map_cons, List.foldr_cons] at ih ⊢
    omega

theorem byteLength_cons (c : Char) (rest : List Char) :
    byteLength (c :: rest) = c.utf8Size + byteLength rest := rfl

/-- **A place in a text is on the line after the text before it.** -/
theorem line_ofText_append (pre rest : List Char) :
    (LineIndex.ofText (pre ++ rest)).line (byteLength pre) = lineAfter pre := by
  rw [LineIndex.line_ofText, bytes_append, ← length_bytes, List.take_left, count_feed_bytes, lineAfter,
    Nat.add_comm]

end Text

/-! ## Pieces -/

namespace Lexeme

/-- Two budgets that suffice cut alike. -/
theorem cut_congr {budget budget' : Nat} {text : List Char} (enough : text.length ≤ budget)
    (enough' : text.length ≤ budget') : cut budget text = cut budget' text := by
  induction budget generalizing budget' text with
  | zero =>
    obtain rfl : text = [] := List.length_eq_zero_iff.mp (Nat.le_zero.mp enough)
    cases budget' <;> rfl
  | succ budget ih =>
    cases text with
    | nil => cases budget' <;> rfl
    | cons c rest =>
      cases budget' with
      | zero => cases enough'
      | succ budget' =>
        have shorter : (rest.drop ((first c rest).text.length - 1)).length ≤ rest.length := by simp
        simp only [List.length_cons, Nat.add_le_add_iff_right] at enough enough'
        rw [cut, cut, ih (Nat.le_trans shorter enough) (Nat.le_trans shorter enough')]

theorem ofText_cons (c : Char) (rest : List Char) :
    ofText (c :: rest) = first c rest :: ofText (rest.drop ((first c rest).text.length - 1)) := by
  rw [ofText, List.length_cons, cut, ofText]
  exact congrArg _ (cut_congr (by simp) (Nat.le_refl _))

end Lexeme

/-- The tokens of a text that starts at an offset. -/
def tokensFrom (offset : Nat) (text : List Char) : List (Spanned (Option Token)) :=
  (placeLexemes offset (Lexeme.ofText text)).filterMap fun item =>
    item.value.piece.reading?.map fun reading => ⟨reading, item.start, item.stop⟩

theorem tokensFrom_nil (offset : Nat) : tokensFrom offset [] = [] := rfl

theorem tokensFrom_token {c : Char} {cs rest : List Char} {token : Token}
    (first : Lexeme.first c (cs ++ rest) = ⟨.token token, c :: cs⟩) (offset : Nat) :
    tokensFrom offset (c :: (cs ++ rest)) =
      ⟨some token, offset, offset + Text.byteLength (c :: cs)⟩ ::
        tokensFrom (offset + Text.byteLength (c :: cs)) rest := by
  rw [tokensFrom, Lexeme.ofText_cons, first]
  simp [placeLexemes, Piece.reading?, tokensFrom]

/-- A whole run of blanks is skipped. -/
theorem tokensFrom_blanks {c : Char} (blank : Lexeme.isBlank c = true) (offset : Nat)
    (rest : List Char) :
    tokensFrom offset (c :: rest) =
      tokensFrom (offset + Text.byteLength (c :: rest.takeWhile Lexeme.isBlank))
        (rest.drop (rest.takeWhile Lexeme.isBlank).length) := by
  have first : Lexeme.first c rest = ⟨.blank, c :: rest.takeWhile Lexeme.isBlank⟩ := by
    rw [Lexeme.first, if_pos blank]
  rw [tokensFrom, Lexeme.ofText_cons, first]
  simp [placeLexemes, Piece.reading?, tokensFrom]

/-- So is one blank, whatever follows it. -/
theorem tokensFrom_blank {c : Char} (blank : Lexeme.isBlank c = true) (offset : Nat)
    (rest : List Char) : tokensFrom offset (c :: rest) = tokensFrom (offset + c.utf8Size) rest := by
  rw [tokensFrom_blanks blank]
  -- A run of blanks is one piece, so its first blank alone is skipped by splitting the run there.
  cases rest with
  | nil => rfl
  | cons d rest =>
    by_cases another : Lexeme.isBlank d = true
    · rw [tokensFrom_blanks another, List.takeWhile_cons, if_pos another]
      simp [Text.byteLength_cons, Nat.add_assoc]
    · rw [List.takeWhile_cons, if_neg another]
      simp [Text.byteLength]

/-! ## Readings -/

/-- Right after `pre`, the tokens of a text that `rest` follows. -/
inductive Reads (rest : List Char) : List Char → List Char → List Located → Prop
  | nil {pre : List Char} : Reads rest pre [] []
  | blank {pre text : List Char} {c : Char} {tokens : List Located} : Lexeme.isBlank c = true →
      Reads rest (pre ++ [c]) text tokens → Reads rest pre (c :: text) tokens
  | token {pre cs text : List Char} {c : Char} {token : Token} {tokens : List Located} :
      Lexeme.first c (cs ++ (text ++ rest)) = ⟨.token token, c :: cs⟩ →
      Reads rest (pre ++ c :: cs) text tokens →
      Reads rest pre (c :: (cs ++ text)) (⟨token, Text.lineAfter pre, Text.byteLength pre,
        Text.byteLength pre + Text.byteLength (c :: cs)⟩ :: tokens)

/-- Readings of consecutive texts compose. -/
theorem Reads.append {pre as bs rest : List Char} {ts us : List Located}
    (first : Reads (bs ++ rest) pre as ts) (second : Reads rest (pre ++ as) bs us) :
    Reads rest pre (as ++ bs) (ts ++ us) := by
  induction first with
  | nil => simpa using second
  | blank blank _ ih => exact .blank blank (ih (by simpa using second))
  | token lexeme _ ih =>
    rw [List.cons_append, List.append_assoc]
    refine .token ?_ (ih (by simpa using second))
    simpa using lexeme

/-- **The tokens of a text are those of its reading.** -/
theorem Reads.locate {pre text full : List Char} {tokens : List Located} (reads : Reads [] pre text tokens)
    (whole : full = pre ++ text) :
    Program.locate (Text.LineIndex.ofText full) (tokensFrom (Text.byteLength pre) text) = tokens ∧
      ∀ item ∈ tokensFrom (Text.byteLength pre) text, item.value.isSome := by
  induction reads with
  | nil => simp [tokensFrom_nil, Program.locate]
  | @blank pre text c tokens blank _ ih =>
    have shift : Text.byteLength pre + c.utf8Size = Text.byteLength (pre ++ [c]) := by
      rw [Text.byteLength_append]
      rfl
    rw [tokensFrom_blank blank, shift]
    exact ih (by simpa using whole)
  | @token pre cs text c token tokens lexeme _ ih =>
    obtain ⟨located, readable⟩ := ih (by simpa using whole)
    rw [List.append_nil] at lexeme
    rw [tokensFrom_token lexeme, ← Text.byteLength_append]
    constructor
    · have line : (Text.LineIndex.ofText full).line (Text.byteLength pre) = Text.lineAfter pre := by
        rw [whole]
        exact Text.line_ofText_append pre _
      rw [Program.locate, List.filterMap_cons]
      simp only [Option.map_some, line]
      rw [Program.locate] at located
      rw [located, Text.byteLength_append]
    · intro item listed
      rcases List.mem_cons.mp listed with rfl | later
      · rfl
      · exact readable item later

/-- What the program reads from a text. -/
theorem Reads.readTokens {text : List Char} {tokens : List Located} (reads : Reads [] [] text tokens) :
    Program.locate (Text.LineIndex.ofText text) (readTokens text) = tokens ∧
      (Dataflow.readTokens text).find? (·.value.isNone) = none := by
  obtain ⟨located, readable⟩ := reads.locate rfl
  refine ⟨located, List.find?_eq_none.mpr fun item listed missing => ?_⟩
  have found := readable item listed
  rw [Option.isNone_iff_eq_none] at missing
  rw [missing] at found
  cases found

/-! ## Words, numbers and symbols -/

namespace Text

/-- Words that are read as names: not empty, made of identifier characters and no keyword. -/
def isName (word : String) : Bool :=
  match word.toList with
  | [] => false
  | c :: cs => isIdentifierStart c && cs.all isIdentifierContinue && (Keyword.ofText? word).isNone

/-- No character below the letters starts an identifier. -/
theorem letter_le_of_isIdentifierStart {c : Char} (start : isIdentifierStart c = true) :
    0x41 ≤ c.toNat := by
  by_cases low : c.toNat < 0x41
  · have outside : inRanges c.toNat identifierStartRanges = false := if_pos low
    rw [isIdentifierStart, outside, Bool.or_false, beq_iff_eq] at start
    rw [start]
    decide
  · exact Nat.le_of_not_lt low

/-- What follows a word or a number where it ends. -/
def Stops (rest : List Char) : Prop :=
  ∀ d, rest.head? = some d → d ∈ [' ', '(', ')', ',', ';']

theorem Stops.not_continue {rest : List Char} (stops : Stops rest) :
    rest.takeWhile isIdentifierContinue = [] := by
  cases rest with
  | nil => rfl
  | cons d rest =>
    have delimiter := stops d rfl
    have other : isIdentifierContinue d = false := by
      simp only [List.mem_cons, List.not_mem_nil, or_false] at delimiter
      rcases delimiter with rfl | rfl | rfl | rfl | rfl <;> decide
    simp [other]

theorem Stops.not_digit {rest : List Char} (stops : Stops rest) : rest.takeWhile Char.isDigit = [] := by
  cases rest with
  | nil => rfl
  | cons d rest =>
    have delimiter := stops d rfl
    have other : d.isDigit = false := by
      simp only [List.mem_cons, List.not_mem_nil, or_false] at delimiter
      rcases delimiter with rfl | rfl | rfl | rfl | rfl <;> decide
    simp [other]

end Text

namespace Lexeme

/-- The blanks are five characters. -/
theorem isBlank_iff {c : Char} : isBlank c = true ↔ c ∈ [' ', '\t', '\r', '\n', '\x0c'] := by
  simp [isBlank, or_assoc]

/-- The ends of lines are two characters. -/
theorem isLineEnd_iff {c : Char} : isLineEnd c = true ↔ c ∈ ['\n', '\r'] := by
  simp [isLineEnd]

theorem lt_letter_of_isBlank {c : Char} (blank : isBlank c = true) : c.toNat < 0x41 := by
  simp only [isBlank_iff, List.mem_cons, List.not_mem_nil, or_false] at blank
  rcases blank with rfl | rfl | rfl | rfl | rfl <;> decide

theorem lt_letter_of_isDigit {c : Char} (digit : c.isDigit = true) : c.toNat < 0x41 := by
  simp only [Char.isDigit, Bool.and_eq_true, decide_eq_true_eq] at digit
  have last : c.toNat ≤ 0x39 := UInt32.le_iff_toNat_le.mp digit.2
  omega

theorem not_isBlank_of_isDigit {c : Char} (digit : c.isDigit = true) : isBlank c = false := by
  refine Bool.eq_false_iff.mpr fun blank => ?_
  simp only [isBlank_iff, List.mem_cons, List.not_mem_nil, or_false] at blank
  rcases blank with rfl | rfl | rfl | rfl | rfl <;> cases digit

/-- A word is read whole. -/
theorem first_word {c : Char} {cs rest : List Char} (start : Text.isIdentifierStart c = true)
    (inside : cs.all Text.isIdentifierContinue = true) (stops : Text.Stops rest) :
    first c (cs ++ rest) = ofWord (c :: cs) := by
  -- Blanks, the slash and digits are tried first; all of them are below the letters.
  have letter := Text.letter_le_of_isIdentifierStart start
  have notBlank : isBlank c = false :=
    Bool.eq_false_iff.mpr fun blank => Nat.not_lt_of_le letter (lt_letter_of_isBlank blank)
  have notSlash : c ≠ '/' := by
    rintro rfl
    revert letter
    decide
  have notDigit : c.isDigit = false :=
    Bool.eq_false_iff.mpr fun digit => Nat.not_lt_of_le letter (lt_letter_of_isDigit digit)
  have whole : (cs ++ rest).takeWhile Text.isIdentifierContinue = cs := by
    rw [List.takeWhile_append_of_pos (fun d member => List.all_eq_true.mp inside d member),
      stops.not_continue, List.append_nil]
  simp [first, notBlank, notSlash, notDigit, start, whole]

/-- A number is read whole. -/
theorem first_digits {c : Char} {cs rest : List Char} (start : c.isDigit = true)
    (inside : cs.all Char.isDigit = true) (stops : Text.Stops rest) :
    first c (cs ++ rest) = ofDigits (c :: cs) := by
  have notBlank := not_isBlank_of_isDigit start
  have notSlash : c ≠ '/' := by
    rintro rfl
    cases start
  have whole : (cs ++ rest).takeWhile Char.isDigit = cs := by
    rw [List.takeWhile_append_of_pos (fun d member => List.all_eq_true.mp inside d member),
      stops.not_digit, List.append_nil]
  simp [first, notBlank, notSlash, start, whole]

theorem ofWord_name {c : Char} {cs : List Char} (name : Text.isName (String.ofList (c :: cs)) = true) :
    ofWord (c :: cs) = ⟨.token (.identifier (String.ofList (c :: cs))), c :: cs⟩ := by
  simp only [Text.isName, String.toList_ofList, Bool.and_eq_true, Option.isNone_iff_eq_none] at name
  simp only [ofWord, name.2]

/-- The digits of a number are read as the number. -/
theorem decimalValue_toDigits (n : Nat) : decimalValue (Nat.toDigits 10 n) = n :=
  Nat.ofDigitChars_ten_toDigits

/-- The piece that starts with `!` before anything but `=`. -/
theorem first_bang {rest : List Char} (other : rest.head? ≠ some '=') :
    first '!' rest = ⟨.token (.symbol .bang), ['!']⟩ := by
  have mark : first '!' rest = ofMark '!' rest := rfl
  rw [mark]
  unfold ofMark
  split
  · exact absurd rfl other
  · rfl

/-- What a token can be: its name is a name, and its number is not negative. -/
def isSpelled : Token → Bool
  | .identifier word => Text.isName word
  | .int value => decide (0 ≤ value)
  | _ => true

theorem isSpelled_ofWord {c : Char} {cs : List Char} {token : Token}
    (start : Text.isIdentifierStart c = true) (inside : cs.all Text.isIdentifierContinue = true)
    (read : (ofWord (c :: cs)).piece = .token token) : isSpelled token = true := by
  simp only [ofWord] at read
  split at read
  · cases read
    rfl
  · next none =>
    cases read
    simp only [isSpelled, Text.isName, String.toList_ofList, start, inside, none]
    rfl

theorem isSpelled_ofDigits {digits : List Char} {token : Token}
    (read : (ofDigits digits).piece = .token token) : isSpelled token = true := by
  simp only [ofDigits] at read
  split at read
  · next value found =>
    cases read
    have same := Checked.ofInt?_eq_some_iff.mp found
    have positive : (0 : Int64).toInt ≤ value.toInt := by
      rw [same]
      exact Int.natCast_nonneg _
    exact decide_eq_true (Int64.le_iff_toInt_le.mpr positive)
  · cases read

theorem isSpelled_ofMark {c : Char} {rest : List Char} {token : Token}
    (read : (ofMark c rest).piece = .token token) : isSpelled token = true := by
  unfold ofMark at read
  split at read
  · cases read
    rfl
  · split at read <;> cases read
    rfl

theorem isSpelled_ofSlash {rest : List Char} {token : Token}
    (read : (ofSlash rest).piece = .token token) : isSpelled token = true := by
  unfold ofSlash at read
  split at read
  · cases read
  · split at read <;> cases read
    rfl
  · cases read
    rfl

/-- Every token that is read can be spelled. -/
theorem isSpelled_first {c : Char} {rest : List Char} {token : Token}
    (read : (first c rest).piece = .token token) : isSpelled token = true := by
  unfold first at read
  split at read
  · cases read
  · split at read
    · exact isSpelled_ofSlash read
    · split at read
      · exact isSpelled_ofDigits read
      · split at read
        · next start => exact isSpelled_ofWord start (List.all_takeWhile ..) read
        · exact isSpelled_ofMark read

end Lexeme

/-- Every piece of a text is the first piece of what is left there. -/
theorem Lexeme.exists_first_of_mem_cut {budget : Nat} {text : List Char} {lexeme : Lexeme}
    (listed : lexeme ∈ cut budget text) : ∃ c rest, lexeme = first c rest := by
  induction budget generalizing text with
  | zero => cases listed
  | succ budget ih =>
    cases text with
    | nil => cases listed
    | cons c rest =>
      rcases List.mem_cons.mp listed with rfl | later
      · exact ⟨c, rest, rfl⟩
      · exact ih later

theorem value_mem_of_mem_placeLexemes {offset : Nat} {lexemes : List Lexeme} {item : Spanned Lexeme}
    (listed : item ∈ placeLexemes offset lexemes) : item.value ∈ lexemes := by
  induction lexemes generalizing offset with
  | nil => cases listed
  | cons lexeme rest ih =>
    rcases List.mem_cons.mp listed with rfl | later
    · exact List.mem_cons_self
    · exact List.mem_cons_of_mem _ (ih later)

/-- **Every token of a text can be spelled.** -/
theorem isSpelled_of_mem_locate {index : Text.LineIndex} {text : List Char} {t : Located}
    (listed : t ∈ Program.locate index (readTokens text)) : Lexeme.isSpelled t.token = true := by
  obtain ⟨item, member, found⟩ := List.mem_filterMap.mp listed
  obtain ⟨token, value, rfl⟩ := Option.map_eq_some_iff.mp found
  obtain ⟨placed, within, read⟩ := List.mem_filterMap.mp member
  obtain ⟨reading, piece, rfl⟩ := Option.map_eq_some_iff.mp read
  obtain ⟨c, rest, lexeme⟩ := Lexeme.exists_first_of_mem_cut (value_mem_of_mem_placeLexemes within)
  have isToken : (Lexeme.first c rest).piece = .token token := by
    subst value
    rw [lexeme] at piece
    cases known : (Lexeme.first c rest).piece with
    | token _ =>
      rw [known] at piece
      cases piece
      rfl
    | blank | comment | unknown =>
      rw [known] at piece
      cases piece
  exact Lexeme.isSpelled_first isToken

end Dataflow
