import Dataflow.Proofs.Token.Scan
import Mathlib.Computability.Language

/-!
# The rules of the lexer

A rule is a regular language (`Rule.language`): blanks, the two forms of comment, the keywords, names,
decimal literals and symbols. Every word that a rule has at the start of a text is a start of the piece
cut off there (`prefix_first`), so that no rule has a longer one. A character that is of no class and no
symbol starts no word (`stray_of_ofChar?_eq_none`).

Two rules can have words at one place in two ways only: a keyword is also a name, and three rules start
with a slash. Everything else is settled by the first character, whose class (`classOf`) is the branch
`first` takes.

The block comment is written the way such rules are: any character but a star, or stars before a
character that is neither star nor slash, and in the end stars before a slash. The words of this
language are the texts whose only `*/` is at their end (`mem_closing_iff`, `throughClose?_self_iff`).
-/

set_option autoImplicit false

open scoped Computability

namespace Dataflow.Lexeme

/-! ## Languages -/

/-- The words of one character of a class. -/
def one (p : Char → Bool) : Language Char :=
  {word | ∃ c, p c = true ∧ word = [c]}

/-- The words of one or more words of a language. -/
def oneOrMore (l : Language Char) : Language Char :=
  l * l∗

/-- What follows the `/*` of a block comment. -/
def closing : Language Char :=
  (one (· != '*') + oneOrMore (one (· == '*')) * one fun c => c != '*' && c != '/')∗ *
    (oneOrMore (one (· == '*')) * {['/']})

/-- The rules. A keyword has a rule for each of its spellings. -/
inductive Rule where
  | blanks
  | lineComment
  | blockComment
  | keyword (spelling : String) (word : Keyword)
  | identifier
  | digits
  | symbol (mark : Symbol)

/-- The words of a rule. -/
def Rule.language : Rule → Language Char
  | blanks => oneOrMore (one (· ∈ [' ', '\t', '\r', '\n', '\x0c']))
  | lineComment => {['/', '/']} * (one (· ∉ ['\n', '\r']))∗
  | blockComment => {['/', '*']} * closing
  | keyword spelling word => {text | (spelling, word) ∈ Keyword.spellings ∧ text = spelling.toList}
  | identifier => one Text.isIdentifierStart * (one Text.isIdentifierContinue)∗
  | digits => oneOrMore (one Char.isDigit)
  | symbol mark => {mark.text.toList}

theorem mem_kstar_one_iff {p : Char → Bool} {word : List Char} :
    word ∈ (one p)∗ ↔ ∀ c ∈ word, p c = true := by
  constructor
  · rintro ⟨parts, rfl, legal⟩ c member
    obtain ⟨part, listed, inside⟩ := List.mem_flatten.mp member
    obtain ⟨d, holds, rfl⟩ := legal part listed
    rwa [List.mem_singleton.mp inside]
  · intro holds
    refine ⟨word.map ([·]), by simp [← List.flatMap_def], ?_⟩
    intro part listed
    obtain ⟨c, member, rfl⟩ := List.mem_map.mp listed
    exact ⟨c, holds c member, rfl⟩

theorem mem_one_mul_kstar_iff {p q : Char → Bool} {word : List Char} :
    word ∈ one p * (one q)∗ ↔ ∃ c cs, word = c :: cs ∧ p c = true ∧ ∀ d ∈ cs, q d = true := by
  constructor
  · intro member
    obtain ⟨_, ⟨c, holds, rfl⟩, cs, later, rfl⟩ := Language.mem_mul.mp member
    exact ⟨c, cs, rfl, holds, mem_kstar_one_iff.mp later⟩
  · rintro ⟨c, cs, rfl, holds, later⟩
    exact Language.append_mem_mul (a := [c]) ⟨c, holds, rfl⟩ (mem_kstar_one_iff.mpr later)

theorem cons_mem_one_mul_kstar_iff {p q : Char → Bool} {c : Char} {cs : List Char} :
    c :: cs ∈ one p * (one q)∗ ↔ p c = true ∧ ∀ d ∈ cs, q d = true := by
  rw [mem_one_mul_kstar_iff]
  constructor
  · rintro ⟨_, _, same, holds, later⟩
    cases same
    exact ⟨holds, later⟩
  · rintro ⟨holds, later⟩
    exact ⟨c, cs, rfl, holds, later⟩

/-- The blanks of the rule are those that the lexer takes for blanks. -/
theorem language_blanks : Rule.blanks.language = oneOrMore (one isBlank) := by
  refine congrArg (fun p => oneOrMore (one p)) (funext fun c => ?_)
  rw [Bool.eq_iff_iff, decide_eq_true_iff, isBlank_iff]

theorem mem_lineComment_iff {word : List Char} :
    word ∈ Rule.lineComment.language ↔
      ∃ body, word = '/' :: '/' :: body ∧ ∀ c ∈ body, isLineEnd c = false := by
  simp only [← Bool.not_eq_true, isLineEnd_iff]
  constructor
  · intro member
    obtain ⟨_, rfl, body, inside, rfl⟩ := Language.mem_mul.mp member
    refine ⟨body, rfl, fun c listed => ?_⟩
    exact of_decide_eq_true (mem_kstar_one_iff.mp inside c listed)
  · rintro ⟨body, rfl, inside⟩
    refine Language.append_mem_mul (a := ['/', '/']) rfl (mem_kstar_one_iff.mpr fun c listed => ?_)
    exact decide_eq_true (inside c listed)

/-! ## Block comments -/

theorem throughClose?_cons (c : Char) (rest : List Char) :
    throughClose? (c :: rest) =
      if c = '*' ∧ rest.head? = some '/' then some ['*', '/']
      else (throughClose? rest).map (c :: ·) := by
  rw [throughClose?.eq_def]
  split
  · contradiction
  · next heq =>
    cases heq
    simp
  · next c' rest' other heq =>
    cases heq
    rw [if_neg]
    rintro ⟨rfl, slash⟩
    obtain ⟨tail, rfl⟩ := List.head?_eq_some_iff.mp slash
    exact other tail rfl rfl

/-- The closing of a text is its start, whatever follows. -/
theorem throughClose?_append {text body : List Char} (closed : throughClose? text = some body)
    (rest : List Char) : throughClose? (text ++ rest) = some body := by
  induction text generalizing body with
  | nil => cases closed
  | cons c text ih =>
    rw [throughClose?_cons] at closed
    rw [List.cons_append, throughClose?_cons]
    by_cases close : c = '*' ∧ text.head? = some '/'
    · rw [if_pos close] at closed
      rw [if_pos ⟨close.1, by rw [List.head?_append, close.2]; rfl⟩]
      exact closed
    · rw [if_neg close] at closed
      obtain ⟨later, found, rfl⟩ := Option.map_eq_some_iff.mp closed
      -- A text with a closing has a character, so the same character follows `c`.
      have nonempty : text ≠ [] := by
        rintro rfl
        cases found
      rw [if_neg, ih found]
      · rfl
      · rwa [List.head?_append_of_ne_nil _ nonempty]

theorem throughClose?_eq_some_iff {text body : List Char} :
    throughClose? text = some body ↔ body <+: text ∧ throughClose? body = some body := by
  constructor
  · intro closed
    induction text generalizing body with
    | nil => cases closed
    | cons c text ih =>
      rw [throughClose?_cons] at closed
      split at closed
      · next close =>
        cases closed
        obtain ⟨rfl, slash⟩ := close
        obtain ⟨rest, rfl⟩ := List.head?_eq_some_iff.mp slash
        exact ⟨⟨rest, rfl⟩, rfl⟩
      · next other =>
        obtain ⟨later, found, rfl⟩ := Option.map_eq_some_iff.mp closed
        obtain ⟨⟨rest, rfl⟩, whole⟩ := ih found
        refine ⟨⟨rest, rfl⟩, ?_⟩
        rw [throughClose?_cons, if_neg, whole]
        · rfl
        · rintro ⟨star, slash⟩
          exact other ⟨star, by rw [List.head?_append, slash]; rfl⟩
  · rintro ⟨⟨rest, rfl⟩, closed⟩
    exact throughClose?_append closed rest

/-- **A text is its own closing when its only closer is at its end.** -/
theorem throughClose?_self_iff {text : List Char} :
    throughClose? text = some text ↔
      ∃ body, text = body ++ ['*', '/'] ∧ ¬ ['*', '/'] <:+: body ++ ['*'] := by
  constructor
  · intro closed
    induction text with
    | nil => cases closed
    | cons c text ih =>
      rw [throughClose?_cons] at closed
      split at closed
      · cases closed
        exact ⟨[], rfl, by decide⟩
      · next other =>
        obtain ⟨later, found, same⟩ := Option.map_eq_some_iff.mp closed
        obtain rfl : later = text := (List.cons.inj same).2
        obtain ⟨body, rfl, single⟩ := ih found
        refine ⟨c :: body, rfl, ?_⟩
        -- An earlier closer starts at `c`, which is excluded here, or later, which `ih` excludes.
        rw [List.cons_append, List.infix_cons_iff, not_or]
        refine ⟨?_, single⟩
        intro starts
        obtain ⟨star, slash⟩ := List.cons_prefix_cons.mp starts
        refine other ⟨star.symm, ?_⟩
        cases body with
        | nil => cases (List.cons_prefix_cons.mp slash).1
        | cons d body => rw [← (List.cons_prefix_cons.mp slash).1]; rfl
  · rintro ⟨body, rfl, single⟩
    induction body with
    | nil => rfl
    | cons c body ih =>
      rw [List.cons_append, List.infix_cons_iff, not_or] at single
      rw [List.cons_append, throughClose?_cons, if_neg, ih single.2]
      · rfl
      · rintro ⟨rfl, slash⟩
        cases body with
        | nil => cases slash
        | cons d body =>
          cases slash
          exact single.1 ⟨body ++ ['*'], rfl⟩

/-- Stars before a character other than a slash close nothing. -/
theorem throughClose?_stars {stars rest : List Char} (all : ∀ c ∈ stars, (c == '*') = true)
    (other : rest.head? ≠ some '/') :
    throughClose? (stars ++ rest) = (throughClose? rest).map (stars ++ ·) := by
  induction stars with
  | nil => simp
  | cons c stars ih =>
    have later : ∀ d ∈ stars, (d == '*') = true := fun d listed => all d (List.mem_cons_of_mem _ listed)
    rw [List.cons_append, throughClose?_cons, if_neg, ih later, Option.map_map]
    · rfl
    · rintro ⟨-, slash⟩
      cases stars with
      | nil => exact other slash
      | cons d stars =>
        cases slash
        cases all '/' (by simp)

/-- Stars before a slash close at their end. -/
theorem throughClose?_stars_slash {stars : List Char} (all : ∀ c ∈ stars, (c == '*') = true) :
    throughClose? ('*' :: stars ++ ['/']) = some ('*' :: stars ++ ['/']) := by
  induction stars with
  | nil => rfl
  | cons c stars ih =>
    obtain rfl : c = '*' := beq_iff_eq.mp (all c List.mem_cons_self)
    have later := ih fun d listed => all d (List.mem_cons_of_mem _ listed)
    rw [List.cons_append, throughClose?_cons, if_neg (by rintro ⟨-, slash⟩; cases slash), later]
    rfl

/-- A word of the closing language starts with a word that keeps the comment open and goes on with a
word of the language, or it is stars before a slash. -/
theorem closing_cases {word : List Char} (member : word ∈ closing) :
    (∃ stars, (∀ c ∈ stars, (c == '*') = true) ∧ word = '*' :: stars ++ ['/']) ∨
    (∃ d rest, d ≠ '*' ∧ rest ∈ closing ∧ word = d :: rest) ∨
    (∃ stars d rest, (∀ c ∈ stars, (c == '*') = true) ∧ d ≠ '*' ∧ d ≠ '/' ∧ rest ∈ closing ∧
      word = '*' :: stars ++ d :: rest) := by
  obtain ⟨_, ⟨blocks, rfl, legal⟩, ending, last, rfl⟩ := Language.mem_mul.mp member
  cases blocks with
  | nil =>
    obtain ⟨_, stars, _, rfl, rfl⟩ := Language.mem_mul.mp last
    obtain ⟨c, cs, rfl, star, all⟩ := mem_one_mul_kstar_iff.mp stars
    obtain rfl : c = '*' := beq_iff_eq.mp star
    exact .inl ⟨cs, all, rfl⟩
  | cons block blocks =>
    have later : blocks.flatten ++ ending ∈ closing :=
      Language.append_mem_mul ⟨blocks, rfl, fun y listed => legal y (List.mem_cons_of_mem _ listed)⟩ last
    right
    rcases legal block List.mem_cons_self with ⟨d, other, rfl⟩ | starred
    · exact .inl ⟨d, blocks.flatten ++ ending, bne_iff_ne.mp other, later, rfl⟩
    · obtain ⟨_, stars, _, ⟨d, other, rfl⟩, rfl⟩ := Language.mem_mul.mp starred
      obtain ⟨c, cs, rfl, star, all⟩ := mem_one_mul_kstar_iff.mp stars
      obtain rfl : c = '*' := beq_iff_eq.mp star
      simp only [Bool.and_eq_true, bne_iff_ne] at other
      exact .inr ⟨cs, d, blocks.flatten ++ ending, all, other.1, other.2, later, by simp⟩

/-- What keeps a comment open may be put before a word of the closing language. -/
theorem append_mem_closing (block : List Char) {word : List Char}
    (kept : block ∈ one (· != '*') + oneOrMore (one (· == '*')) * one fun c => c != '*' && c != '/')
    (member : word ∈ closing) : block ++ word ∈ closing := by
  obtain ⟨_, ⟨blocks, rfl, legal⟩, ending, last, rfl⟩ := Language.mem_mul.mp member
  rw [← List.append_assoc]
  refine Language.append_mem_mul ⟨block :: blocks, rfl, ?_⟩ last
  intro part listed
  rcases List.mem_cons.mp listed with rfl | later
  · exact kept
  · exact legal part later

theorem mem_stars {stars : List Char} (all : ∀ c ∈ stars, (c == '*') = true) :
    '*' :: stars ∈ oneOrMore (one (· == '*')) :=
  cons_mem_one_mul_kstar_iff.mpr ⟨rfl, all⟩

theorem stars_slash_mem_closing {stars : List Char} (all : ∀ c ∈ stars, (c == '*') = true) :
    '*' :: stars ++ ['/'] ∈ closing :=
  Language.append_mem_mul (a := []) (Language.nil_mem_kstar _)
    (Language.append_mem_mul (mem_stars all) rfl)

/-- A star may be put before a word of the closing language that does not start with a slash. -/
theorem star_cons_mem_closing {word : List Char} (member : word ∈ closing)
    (other : word.head? ≠ some '/') : '*' :: word ∈ closing := by
  rcases closing_cases member with ⟨stars, all, rfl⟩ | ⟨d, rest, noStar, later, rfl⟩ |
    ⟨stars, d, rest, all, noStar, noSlash, later, rfl⟩
  · exact stars_slash_mem_closing (List.forall_mem_cons.mpr ⟨rfl, all⟩)
  · have noSlash : d ≠ '/' := fun slash => other (by rw [slash]; rfl)
    have none : ∀ c ∈ ([] : List Char), (c == '*') = true := by simp
    refine append_mem_closing ['*', d] (.inr ?_) later
    exact Language.append_mem_mul (mem_stars none) ⟨d, by simp [noStar, noSlash], rfl⟩
  · have longer : ∀ c ∈ '*' :: stars, (c == '*') = true := List.forall_mem_cons.mpr ⟨rfl, all⟩
    have whole : '*' :: ('*' :: stars ++ d :: rest) = ('*' :: '*' :: stars ++ [d]) ++ rest := by simp
    rw [whole]
    refine append_mem_closing _ (.inr ?_) later
    exact Language.append_mem_mul (mem_stars longer) ⟨d, by simp [noStar, noSlash], rfl⟩

theorem throughClose?_of_mem_closing {word : List Char} (member : word ∈ closing) :
    throughClose? word = some word := by
  rcases closing_cases member with ⟨stars, all, rfl⟩ | ⟨d, rest, noStar, later, rfl⟩ |
    ⟨stars, d, rest, all, noStar, noSlash, later, rfl⟩
  · exact throughClose?_stars_slash all
  · rw [throughClose?_cons, if_neg fun close => noStar close.1, throughClose?_of_mem_closing later]
    rfl
  · have starred : ∀ c ∈ '*' :: stars, (c == '*') = true := List.forall_mem_cons.mpr ⟨rfl, all⟩
    have kept : (d :: rest).head? ≠ some '/' := fun slash => noSlash (Option.some.inj slash)
    rw [throughClose?_stars starred kept, throughClose?_cons, if_neg fun close => noStar close.1,
      throughClose?_of_mem_closing later]
    rfl
termination_by word.length
decreasing_by all_goals subst_vars; simp; try omega

/-- **The words of the closing language are the texts that are their own closing.** -/
theorem mem_closing_iff {word : List Char} : word ∈ closing ↔ throughClose? word = some word := by
  refine ⟨throughClose?_of_mem_closing, fun closed => ?_⟩
  induction word with
  | nil => cases closed
  | cons c word ih =>
    rw [throughClose?_cons] at closed
    split at closed
    · cases closed
      have none : ∀ c ∈ ([] : List Char), (c == '*') = true := by simp
      exact stars_slash_mem_closing none
    · next other =>
      obtain ⟨later, found, same⟩ := Option.map_eq_some_iff.mp closed
      obtain rfl : later = word := (List.cons.inj same).2
      have member := ih found
      by_cases star : c = '*'
      · subst star
        exact star_cons_mem_closing member fun slash => other ⟨rfl, slash⟩
      · exact append_mem_closing [c] (.inl ⟨c, bne_iff_ne.mpr star, rfl⟩) member

theorem mem_blockComment_iff {word : List Char} :
    word ∈ Rule.blockComment.language ↔
      ∃ body, word = '/' :: '*' :: body ∧ throughClose? body = some body := by
  constructor
  · intro member
    obtain ⟨_, rfl, body, inside, rfl⟩ := Language.mem_mul.mp member
    exact ⟨body, rfl, mem_closing_iff.mp inside⟩
  · rintro ⟨body, rfl, closed⟩
    exact Language.append_mem_mul (a := ['/', '*']) rfl (mem_closing_iff.mpr closed)

/-! ## First characters -/

/-- The classes of characters that `first` tells apart. -/
inductive Class where
  | blank
  | slash
  | digit
  | letter
  | other
deriving DecidableEq

/-- The class of a character. -/
def classOf (c : Char) : Class :=
  if isBlank c then .blank
  else if c = '/' then .slash
  else if c.isDigit then .digit
  else if Text.isIdentifierStart c then .letter
  else .other

/-- The first piece of a text, by the class of its first character. -/
theorem first_eq (c : Char) (rest : List Char) :
    first c rest = match classOf c with
      | .blank => ⟨.blank, c :: rest.takeWhile isBlank⟩
      | .slash => ofSlash rest
      | .digit => ofDigits (c :: rest.takeWhile Char.isDigit)
      | .letter => ofWord (c :: rest.takeWhile Text.isIdentifierContinue)
      | .other => ofMark c rest := by
  unfold first classOf
  split_ifs <;> rfl

theorem classOf_eq_blank_iff {c : Char} : classOf c = .blank ↔ isBlank c = true := by
  unfold classOf
  split_ifs <;> simp_all

theorem classOf_eq_slash_iff {c : Char} : classOf c = .slash ↔ c = '/' := by
  constructor
  · unfold classOf
    split_ifs <;> simp_all
  · rintro rfl
    rfl

theorem classOf_eq_digit_iff {c : Char} : classOf c = .digit ↔ c.isDigit = true := by
  constructor
  · unfold classOf
    split_ifs <;> simp_all
  · intro digit
    have notSlash : c ≠ '/' := by
      rintro rfl
      cases digit
    simp [classOf, not_isBlank_of_isDigit digit, notSlash, digit]

theorem classOf_eq_letter_iff {c : Char} : classOf c = .letter ↔ Text.isIdentifierStart c = true := by
  constructor
  · unfold classOf
    split_ifs <;> simp_all
  · intro start
    -- Blanks, the slash and digits are below the letters.
    have letter := Text.letter_le_of_isIdentifierStart start
    have notBlank : isBlank c = false :=
      Bool.eq_false_iff.mpr fun blank => Nat.not_lt_of_le letter (lt_letter_of_isBlank blank)
    have notSlash : c ≠ '/' := by
      rintro rfl
      revert letter
      decide
    have notDigit : c.isDigit = false :=
      Bool.eq_false_iff.mpr fun digit => Nat.not_lt_of_le letter (lt_letter_of_isDigit digit)
    simp [classOf, notBlank, notSlash, notDigit, start]

/-- The class of the characters with which the words of a rule start. -/
def Rule.opening : Rule → Class
  | blanks => .blank
  | lineComment => .slash
  | blockComment => .slash
  | keyword .. => .letter
  | identifier => .letter
  | digits => .digit
  | symbol mark => if mark = .slash then .slash else .other

/-- A keyword is spelled like a name. -/
theorem keyword_le_identifier {spelling : String} {key : Keyword} {word : List Char}
    (member : word ∈ (Rule.keyword spelling key).language) : word ∈ Rule.identifier.language := by
  obtain ⟨listed, rfl⟩ := member
  have spelled : ∀ entry ∈ Keyword.spellings, ∃ c cs, entry.1.toList = c :: cs ∧
      Text.isIdentifierStart c = true ∧ cs.all Text.isIdentifierContinue = true := by
    simp only [Keyword.spellings, List.forall_mem_cons, List.not_mem_nil, false_implies, implies_true,
      and_true]
    refine ⟨?_, ?_, ?_, ?_, ?_, ?_, ?_, ?_, ?_, ?_, ?_⟩ <;> exact ⟨_, _, rfl, by decide, by decide⟩
  obtain ⟨c, cs, whole, start, inside⟩ := spelled _ listed
  exact mem_one_mul_kstar_iff.mpr ⟨c, cs, whole, start, List.all_eq_true.mp inside⟩

/-- A symbol is one character, or one character and `=`. -/
theorem symbol_text (mark : Symbol) : ∃ c cs, mark.text.toList = c :: cs ∧
    (Symbol.ofChar? c).isSome = true ∧ classOf c = (Rule.symbol mark).opening ∧
    (cs = [] ∨ cs = ['='] ∧ Symbol.withEqual? c = some mark) := by
  cases mark <;> exact ⟨_, _, rfl, rfl, by decide +kernel, by decide⟩

/-- **The first character of a word tells the class of its rule.** -/
theorem exists_cons_of_mem_language {rule : Rule} {word : List Char} (member : word ∈ rule.language) :
    ∃ c cs, word = c :: cs ∧ classOf c = rule.opening := by
  have named : ∀ {word : List Char}, word ∈ Rule.identifier.language →
      ∃ c cs, word = c :: cs ∧ classOf c = .letter := by
    intro word member
    obtain ⟨c, cs, rfl, start, -⟩ := mem_one_mul_kstar_iff.mp member
    exact ⟨c, cs, rfl, classOf_eq_letter_iff.mpr start⟩
  cases rule with
  | blanks =>
    rw [language_blanks] at member
    obtain ⟨c, cs, rfl, start, -⟩ := mem_one_mul_kstar_iff.mp member
    exact ⟨c, cs, rfl, classOf_eq_blank_iff.mpr start⟩
  | lineComment =>
    obtain ⟨body, rfl, -⟩ := mem_lineComment_iff.mp member
    exact ⟨_, _, rfl, rfl⟩
  | blockComment =>
    obtain ⟨body, rfl, -⟩ := mem_blockComment_iff.mp member
    exact ⟨_, _, rfl, rfl⟩
  | keyword => exact named (keyword_le_identifier member)
  | identifier => exact named member
  | digits =>
    obtain ⟨c, cs, rfl, start, -⟩ := mem_one_mul_kstar_iff.mp member
    exact ⟨c, cs, rfl, classOf_eq_digit_iff.mpr start⟩
  | symbol mark =>
    obtain ⟨c, cs, text, -, opening, -⟩ := symbol_text mark
    exact ⟨c, cs, member.trans text, opening⟩

/-! ## The longest word -/

@[simp]
theorem text_ofDigits (digits : List Char) : (ofDigits digits).text = digits := by
  unfold ofDigits
  split <;> rfl

@[simp]
theorem text_ofWord (word : List Char) : (ofWord word).text = word := by
  simp only [ofWord]
  split <;> rfl

theorem text_ofMark (c : Char) (rest : List Char) :
    (ofMark c rest).text =
      if (Symbol.withEqual? c).isSome ∧ rest.head? = some '=' then [c, '='] else [c] := by
  unfold ofMark
  split
  · next found => simp [found]
  · next other =>
    rw [if_neg]
    · split <;> rfl
    · rintro ⟨known, equal⟩
      obtain ⟨mark, found⟩ := Option.isSome_iff_exists.mp known
      obtain ⟨tail, whole⟩ := List.head?_eq_some_iff.mp equal
      exact other mark tail found whole

/-- A start of a text whose characters are all of a class is a start of its longest such start. -/
theorem prefix_takeWhile {p : Char → Bool} {word text : List Char} (all : ∀ c ∈ word, p c = true)
    (start : word <+: text) : word <+: text.takeWhile p := by
  obtain ⟨rest, rfl⟩ := start
  rw [List.takeWhile_append_of_pos all]
  exact List.prefix_append word _

theorem prefix_ofSlash {rule : Rule} {cs rest : List Char} (member : '/' :: cs ∈ rule.language)
    (opening : rule.opening = .slash) (start : cs <+: rest) : '/' :: cs <+: (ofSlash rest).text := by
  obtain ⟨later, rfl⟩ := start
  cases rule with
  | lineComment =>
    obtain ⟨body, same, inside⟩ := mem_lineComment_iff.mp member
    cases same
    have kept : ∀ c ∈ body, (!isLineEnd c) = true := by
      intro c listed
      rw [inside c listed]
      rfl
    obtain ⟨more, same⟩ := prefix_takeWhile kept (List.prefix_append body later)
    exact ⟨more, by simp [ofSlash, ← same]⟩
  | blockComment =>
    obtain ⟨body, same, closed⟩ := mem_blockComment_iff.mp member
    cases same
    simp [ofSlash, throughClose?_append closed]
  | symbol mark =>
    obtain rfl : mark = .slash := by
      by_contra other
      simp [Rule.opening, other] at opening
    cases (show '/' :: cs = ['/'] from member)
    unfold ofSlash
    split
    · exact ⟨_, rfl⟩
    · split
      · exact ⟨_, rfl⟩
      · exact ⟨_, rfl⟩
    · exact ⟨_, rfl⟩
  | blanks | keyword | identifier | digits => cases opening

/-- **The first piece of a text is the longest word any rule has there.** -/
theorem prefix_first {rule : Rule} {word rest : List Char} {c : Char} (member : word ∈ rule.language)
    (start : word <+: c :: rest) : word <+: (first c rest).text := by
  obtain ⟨d, cs, rfl, opening⟩ := exists_cons_of_mem_language member
  obtain ⟨rfl, later⟩ := List.cons_prefix_cons.mp start
  have named : ∀ {cs : List Char}, d :: cs ∈ Rule.identifier.language → cs <+: rest →
      d :: cs <+: (ofWord (d :: rest.takeWhile Text.isIdentifierContinue)).text := by
    intro cs member later
    obtain ⟨-, inside⟩ := cons_mem_one_mul_kstar_iff.mp member
    rw [text_ofWord]
    exact List.cons_prefix_cons.mpr ⟨rfl, prefix_takeWhile inside later⟩
  rw [first_eq, opening]
  cases rule with
  | blanks =>
    rw [language_blanks] at member
    obtain ⟨-, inside⟩ := cons_mem_one_mul_kstar_iff.mp member
    exact List.cons_prefix_cons.mpr ⟨rfl, prefix_takeWhile inside later⟩
  | lineComment | blockComment =>
    obtain rfl := classOf_eq_slash_iff.mp opening
    exact prefix_ofSlash member rfl later
  | keyword => exact named (keyword_le_identifier member) later
  | identifier => exact named member later
  | digits =>
    obtain ⟨-, inside⟩ := cons_mem_one_mul_kstar_iff.mp member
    rw [Rule.opening, text_ofDigits]
    exact List.cons_prefix_cons.mpr ⟨rfl, prefix_takeWhile inside later⟩
  | symbol mark =>
    by_cases slash : mark = .slash
    · subst slash
      obtain rfl := classOf_eq_slash_iff.mp opening
      exact prefix_ofSlash member rfl later
    · rw [Rule.opening, if_neg slash, text_ofMark]
      obtain ⟨_, _, text, -, -, length⟩ := symbol_text mark
      cases (show d :: cs = mark.text.toList from member).trans text
      rcases length with rfl | ⟨rfl, known⟩
      · split <;> simp
      · obtain ⟨more, rfl⟩ := later
        simp [known]

/-- No word of any rule starts with the character. -/
def Stray (c : Char) : Prop :=
  ∀ (rule : Rule) (word : List Char), word ∈ rule.language → word.head? ≠ some c

theorem stray_of_ofChar?_eq_none {c : Char} (other : classOf c = .other)
    (unknown : Symbol.ofChar? c = none) : Stray c := by
  intro rule word member starts
  obtain ⟨d, cs, rfl, opening⟩ := exists_cons_of_mem_language member
  obtain rfl : d = c := Option.some.inj starts
  rw [other] at opening
  cases rule with
  | symbol mark =>
    obtain ⟨_, _, text, known, -⟩ := symbol_text mark
    cases (show d :: cs = mark.text.toList from member).trans text
    rw [unknown] at known
    cases known
  | blanks | lineComment | blockComment | keyword | identifier | digits => cases opening

end Dataflow.Lexeme
