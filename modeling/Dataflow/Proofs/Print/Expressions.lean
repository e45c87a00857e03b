import Dataflow.Expr.Print
import Dataflow.Proofs.Grammar.Soundness
import Dataflow.Proofs.Token.Scan

/-!
# Printed expressions are read back

The text of an expression is read as tokens that derive it (`spelledAs_render`): an operand in parentheses
is a group, everything else binds as tightly as a prefix operator, and two operands around an operator
are an expression of the operator's level. The names have to be names, and no constant may be the least
word, whose digits are no word (`Expr.isPrintable`).
-/

set_option autoImplicit false

namespace Dataflow

/-! ## Expressions that can be printed -/

mutual

/-- Expressions whose names are names and whose constants are the value of their digits. -/
def Expr.isPrintable : Expr → Bool
  | .var name => Text.isName name
  | .int value => decide (value ≠ Int64.minValue)
  | .bool _ => true
  | .not operand => operand.isPrintable
  | .arith left _ right => left.isPrintable && right.isPrintable
  | .compare left _ right => left.isPrintable && right.isPrintable
  | .equality left _ right => left.isPrintable && right.isPrintable
  | .logic left _ right => left.isPrintable && right.isPrintable
  | .call name arguments => Text.isName name && arePrintable arguments

/-- Lists of such expressions. -/
def Expr.arePrintable : List Expr → Bool
  | [] => true
  | e :: rest => e.isPrintable && arePrintable rest

end

open Grammar

/-! ## Tokens of a text -/

/-- The token of a piece that starts right after `pre`. -/
def tokenAt (pre : List Char) (token : Token) (text : List Char) : Located :=
  ⟨token, Text.lineAfter pre, Text.byteLength pre, Text.byteLength pre + Text.byteLength text⟩

/-- A piece that is one token is read as that token. -/
theorem Reads.single {pre rest cs : List Char} {c : Char} {token : Token}
    (lexeme : Lexeme.first c (cs ++ rest) = ⟨.token token, c :: cs⟩) :
    Reads rest pre (c :: cs) [tokenAt pre token (c :: cs)] := by
  have reads : Reads rest pre (c :: (cs ++ [])) [tokenAt pre token (c :: cs)] :=
    .token (by simpa using lexeme) .nil
  rwa [List.append_nil] at reads

/-- A name is read as a name. -/
theorem reads_name {word : String} (name : Text.isName word = true) (pre : List Char)
    {rest : List Char} (stops : Text.Stops rest) :
    Reads rest pre word.toList [tokenAt pre (.identifier word) word.toList] := by
  have parts := name
  cases spelled : word.toList with
  | nil => simp [Text.isName, spelled] at name
  | cons c cs =>
    obtain rfl : word = String.ofList (c :: cs) := by rw [← spelled, String.ofList_toList]
    simp only [Text.isName, String.toList_ofList, Bool.and_eq_true] at parts
    refine Reads.single ?_
    rw [Lexeme.first_word parts.1.1 parts.1.2 stops, Lexeme.ofWord_name name]

/-- The digits of a word that is not negative are read as the word. -/
theorem reads_digits {value : Int64} {n : Nat} (same : value.toInt = n) (pre : List Char)
    {rest : List Char} (stops : Text.Stops rest) :
    Reads rest pre (Nat.toDigits 10 n) [tokenAt pre (.int value) (Nat.toDigits 10 n)] := by
  have digits : ∀ c ∈ Nat.toDigits 10 n, c.isDigit = true := fun c member =>
    Nat.isDigit_of_mem_toDigits (by decide) (by decide) member
  have read : Lexeme.ofDigits (Nat.toDigits 10 n) = ⟨.token (.int value), Nat.toDigits 10 n⟩ := by
    simp only [Lexeme.ofDigits, Lexeme.decimalValue_toDigits, ← same, Checked.ofInt?_toInt]
  cases spelled : Nat.toDigits 10 n with
  | nil => exact absurd spelled Nat.toDigits_ne_nil
  | cons c cs =>
    rw [spelled] at read digits
    refine Reads.single ?_
    rw [Lexeme.first_digits (digits c List.mem_cons_self)
      (List.all_eq_true.mpr fun d member => digits d (List.mem_cons_of_mem c member)) stops, read]

/-- The words for truth values are read as the constants. -/
theorem reads_truth (value : Bool) (pre : List Char) {rest : List Char} (stops : Text.Stops rest) :
    Reads rest pre (Text.truth value).toList
      [tokenAt pre (.keyword (if value then .trueWord else .falseWord)) (Text.truth value).toList] := by
  cases value with
  | true =>
    have word := @Lexeme.first_word 't' ['r', 'u', 'e'] rest (by decide) (by decide) stops
    exact Reads.single (word.trans rfl)
  | false =>
    have word := @Lexeme.first_word 'f' ['a', 'l', 's', 'e'] rest (by decide) (by decide) stops
    exact Reads.single (word.trans rfl)

/-- A symbol of one character that no second one continues. -/
theorem reads_mark {c : Char} {mark : Symbol}
    (lexeme : ∀ rest, Lexeme.first c rest = ⟨.token (.symbol mark), [c]⟩) (pre rest : List Char) :
    Reads rest pre [c] [tokenAt pre (.symbol mark) [c]] :=
  Reads.single (lexeme rest)

theorem reads_leftParen (pre rest : List Char) :
    Reads rest pre ['('] [tokenAt pre (.symbol .leftParen) ['(']] :=
  reads_mark (fun _ => rfl) pre rest

theorem reads_rightParen (pre rest : List Char) :
    Reads rest pre [')'] [tokenAt pre (.symbol .rightParen) [')']] :=
  reads_mark (fun _ => rfl) pre rest

theorem reads_comma (pre rest : List Char) :
    Reads rest pre [','] [tokenAt pre (.symbol .comma) [',']] :=
  reads_mark (fun _ => rfl) pre rest

/-- A blank is no token. -/
theorem reads_blank (pre rest : List Char) : Reads rest pre [' '] [] :=
  .blank rfl .nil

/-! ## Operators -/

/-- The spelling of a binary operator. -/
def BinaryOp.symbol : BinaryOp → String
  | arith op => op.symbol
  | compare op => op.symbol
  | equality op => op.symbol
  | logic op => op.symbol

/-- An operator before a blank is read as the operator. -/
theorem BinaryOp.reads_symbol (op : BinaryOp) (pre : List Char) : ∃ t : Located,
    BinaryOp.ofToken? t.token = some op ∧
      ∀ rest : List Char, Reads (' ' :: rest) pre op.symbol.toList [t] := by
  have lexeme : ∃ c cs token, op.symbol.toList = c :: cs ∧ BinaryOp.ofToken? token = some op ∧
      ∀ rest, Lexeme.first c (cs ++ ' ' :: rest) = ⟨.token token, c :: cs⟩ := by
    cases op with
    | arith op => cases op <;> exact ⟨_, _, _, rfl, rfl, fun _ => rfl⟩
    | compare op => cases op <;> exact ⟨_, _, _, rfl, rfl, fun _ => rfl⟩
    | equality op => cases op <;> exact ⟨_, _, _, rfl, rfl, fun _ => rfl⟩
    | logic op => cases op <;> exact ⟨_, _, _, rfl, rfl, fun _ => rfl⟩
  obtain ⟨c, cs, token, spelled, known, lexeme⟩ := lexeme
  refine ⟨tokenAt pre token (c :: cs), known, fun rest => ?_⟩
  rw [spelled]
  exact Reads.single (lexeme rest)

/-! ## Expressions -/

/-- Wherever the text stands, it is read as tokens that derive the expression at a level, provided what
follows ends a word. -/
def SpelledAs (n : Nat) (text : List Char) (e : Expr) : Prop :=
  ∀ pre rest, Text.Stops rest →
    ∃ ts tree, Reads rest pre text ts ∧ DerivesExpr n ts tree ∧ tree.value = e

theorem SpelledAs.loosen {n m : Nat} {text : List Char} {e : Expr} (spelled : SpelledAs m text e)
    (le : n ≤ m) (atMost : m ≤ 7) : SpelledAs n text e := by
  intro pre rest stops
  obtain ⟨ts, tree, reads, derives, value⟩ := spelled pre rest stops
  exact ⟨ts, tree, reads, derives.loosen le atMost, value⟩

theorem stops_cons {c : Char} (delimiter : c ∈ [' ', '(', ')', ',', ';']) (rest : List Char) :
    Text.Stops (c :: rest) := by
  intro d head
  cases head
  exact delimiter

/-- An expression in parentheses. -/
theorem SpelledAs.group {text : List Char} {e : Expr} (spelled : SpelledAs 0 text e) :
    SpelledAs 6 ('(' :: (text ++ [')'])) e := by
  intro pre rest _
  obtain ⟨ts, tree, reads, derives, value⟩ :=
    spelled (pre ++ ['(']) (')' :: rest) (stops_cons (by decide) rest)
  have whole := (reads_leftParen pre _).append (reads.append (reads_rightParen _ rest))
  exact ⟨_, .group tree, whole, .atom (.group rfl derives rfl), value⟩

/-- Two operands around an operator. -/
theorem SpelledAs.binary {text text' : List Char} {left right : Expr} (op : BinaryOp)
    (spelled : SpelledAs 6 text left) (spelled' : SpelledAs 6 text' right) :
    SpelledAs 0 (text ++ ([' '] ++ (op.symbol.toList ++ ([' '] ++ text')))) (op.apply left right) := by
  intro pre rest stops
  have levels : op.precedence + 1 ≤ 6 := precedence_lt op
  obtain ⟨ts, tree, reads, derives, rfl⟩ := spelled.loosen (Nat.le_of_succ_le levels) (by decide) pre
    (' ' :: (op.symbol.toList ++ ([' '] ++ text') ++ rest)) (stops_cons (by decide) _)
  obtain ⟨t, known, readsOp⟩ := op.reads_symbol (pre ++ text ++ [' '])
  obtain ⟨us, tree', reads', derives', rfl⟩ := spelled'.loosen levels (by decide)
    (pre ++ text ++ [' '] ++ op.symbol.toList ++ [' ']) rest stops
  have whole := reads.append ((reads_blank _ _).append
    ((readsOp _).append ((reads_blank _ _).append reads')))
  have listed := mem_operators_iff.mpr ⟨known, rfl⟩
  -- Both operands bind more tightly than any operator, so the operator stands at its own level.
  exact ⟨_, .binary tree op tree', whole,
    (derives.binary listed derives').loosen (Nat.zero_le _) (by omega), rfl⟩

/-- A negated operand. -/
theorem SpelledAs.bang {text : List Char} {e : Expr} (spelled : SpelledAs 6 text e)
    (other : text.head? ≠ some '=') : SpelledAs 6 ('!' :: text) (.not e) := by
  intro pre rest stops
  obtain ⟨ts, tree, reads, derives, rfl⟩ := spelled (pre ++ ['!']) rest stops
  have other' : (text ++ rest).head? ≠ some '=' := by
    cases text with
    | nil =>
      intro equals
      exact absurd (stops '=' equals) (by decide)
    | cons c cs => exact other
  have mark : Reads (text ++ rest) pre ['!'] [tokenAt pre (.symbol .bang) ['!']] :=
    Reads.single (Lexeme.first_bang other')
  exact ⟨_, .unary .bang tree, mark.append reads, .unary (by simp [tokenAt, prefixes]) derives, rfl⟩

/-- The negation of a positive constant. -/
theorem SpelledAs.negative {value : Int64} {n : Nat} (same : value.toInt = -n)
    (printable : value ≠ Int64.minValue) : SpelledAs 6 ('-' :: Nat.toDigits 10 n) (.int value) := by
  intro pre rest stops
  have least : Int64.minValue.toInt = -9223372036854775808 := Int64.toInt_minValue
  have above : value.toInt ≠ -9223372036854775808 := fun lowest =>
    printable (Int64.toInt_inj.mp (lowest.trans least.symm))
  have lower := Int64.le_toInt value
  have opposite : (-value).toInt = n := by
    rw [Int64.toInt_neg, same, Int.neg_neg]
    exact Int.bmod_eq_of_le (by omega) (by omega)
  have notLeast : -value ≠ Int64.minValue := by
    intro lowest
    rw [lowest, least] at opposite
    omega
  -- The sign is a token of its own, so the digits are read as the opposite constant, which is a word
  -- because the least one is excluded.
  have digits := reads_digits opposite (pre ++ ['-']) stops
  have mark : Reads (Nat.toDigits 10 n ++ rest) pre ['-'] [tokenAt pre (.symbol .minus) ['-']] :=
    reads_mark (fun _ => rfl) pre _
  refine ⟨_, .unary .minus (.int (-value)), mark.append digits,
    .unary (by simp [tokenAt, prefixes]) (.atom (.int rfl)), ?_⟩
  rw [ExprTree.value, ExprTree.value, minus, if_neg notLeast, Int64.neg_neg]

/-- A call with arguments. -/
theorem SpelledAs.call {word : String} {text : List Char} {arguments : List Expr}
    (name : Text.isName word = true)
    (spelled : ∀ pre rest, ∃ ts trees, Reads (')' :: rest) pre text ts ∧ DerivesArguments ts trees ∧
      ExprTree.values trees = arguments) :
    SpelledAs 6 (word.toList ++ ('(' :: (text ++ [')']))) (.call word arguments) := by
  intro pre rest _
  obtain ⟨ts, trees, reads, derives, rfl⟩ := spelled (pre ++ word.toList ++ ['(']) rest
  have paren : Text.Stops ('(' :: ((text ++ [')']) ++ rest)) := stops_cons (by decide) _
  have called := reads_name name pre paren
  have whole := called.append
    ((reads_leftParen _ _).append (reads.append (reads_rightParen _ rest)))
  exact ⟨_, .call word trees, whole, .atom (.call rfl rfl derives rfl), rfl⟩

/-- The text after the first of several words. -/
def moreWords (words : List String) : List Char :=
  words.flatMap fun word => ',' :: ' ' :: word.toList

theorem toList_intercalate_cons (word : String) (words : List String) :
    (", ".intercalate (word :: words)).toList = word.toList ++ moreWords words := by
  rw [String.toList_intercalate]
  induction words generalizing word with
  | nil => simp [moreWords]
  | cons next words ih =>
    have later := ih next
    simp only [List.map_cons, moreWords, List.flatMap_cons] at later ⊢
    rw [List.intercalate_cons_cons, later]
    simp

theorem stops_moreWords (words : List String) (rest : List Char) :
    Text.Stops (moreWords words ++ ')' :: rest) := by
  cases words with
  | nil => exact stops_cons (by decide) rest
  | cons word words => exact stops_cons (by decide) _

theorem head?_name {word : String} (name : Text.isName word = true) :
    word.toList.head? ≠ some '=' := by
  intro equals
  cases spelled : word.toList with
  | nil =>
    rw [spelled] at equals
    cases equals
  | cons c cs =>
    rw [spelled] at equals
    cases equals
    simp only [Text.isName, spelled, Bool.and_eq_true] at name
    exact absurd (Text.letter_le_of_isIdentifierStart name.1.1) (by decide)

theorem head?_append_ne {as bs : List Char} (first : as.head? ≠ some '=')
    (second : bs.head? ≠ some '=') : (as ++ bs).head? ≠ some '=' := by
  cases as with
  | nil => exact second
  | cons a as => exact first

theorem head?_asOperand {e : Expr} {text : String} (other : text.toList.head? ≠ some '=') :
    (e.asOperand text).toList.head? ≠ some '=' := by
  rw [Expr.asOperand]
  split
  · simp [String.toList_append]
  · exact other

/-- No printed expression starts with the sign that turns `!` into another operator. -/
theorem head?_render : ∀ {e : Expr}, e.isPrintable = true → e.render.toList.head? ≠ some '='
  | .var name, printable => by
    rw [Expr.isPrintable] at printable
    exact head?_name printable
  | .int value, _ => by
    rw [Expr.render, Int.toString_eq_repr, Int.repr_eq_if]
    split
    · rw [Nat.toList_repr]
      intro equals
      have digit := Nat.isDigit_of_mem_toDigits (by decide) (by decide) (List.mem_of_head? equals)
      cases digit
    · simp [String.toList_append]
  | .bool true, _ | .bool false, _ => by decide
  | .not _, _ => by simp [Expr.render, String.toList_append]
  | .arith left _ _, printable | .compare left _ _, printable | .equality left _ _, printable
  | .logic left _ _, printable => by
    simp only [Expr.isPrintable, Bool.and_eq_true] at printable
    simp only [Expr.render, String.toList_append, List.append_assoc]
    exact head?_append_ne (head?_asOperand (head?_render printable.1)) (by simp)
  | .call name _, printable => by
    simp only [Expr.isPrintable, Bool.and_eq_true] at printable
    simp only [Expr.render, String.toList_append, List.append_assoc]
    exact head?_append_ne (head?_name printable.1) (by simp)

/-- The level of a printed expression: binary expressions bind least. -/
def Expr.printedLevel : Expr → Nat
  | .arith _ _ _ | .compare _ _ _ | .equality _ _ _ | .logic _ _ _ => 0
  | _ => 6

theorem Expr.printedLevel_le (e : Expr) : e.printedLevel ≤ 7 := by
  cases e with
  | arith _ _ _ | compare _ _ _ | equality _ _ _ | logic _ _ _ => exact Nat.zero_le 7
  | var _ | int _ | bool _ | not _ | call _ _ => exact Nat.le_succ 6

/-- A printed operand binds as tightly as a prefix operator. -/
theorem SpelledAs.operand {e : Expr} (spelled : SpelledAs e.printedLevel e.render.toList e) :
    SpelledAs 6 (e.asOperand e.render).toList e := by
  have loose : SpelledAs 0 e.render.toList e := spelled.loosen (Nat.zero_le _) e.printedLevel_le
  rw [Expr.asOperand]
  split
  · simp only [String.toList_append, List.append_assoc]
    exact loose.group
  · next simple =>
    cases e with
    | arith _ _ _ | compare _ _ _ | equality _ _ _ | logic _ _ _ => exact absurd rfl simple
    | var _ | int _ | bool _ | not _ | call _ _ => exact spelled

mutual

/-- **A printed expression is read as the expression.** -/
theorem spelledAs_render : ∀ {e : Expr}, e.isPrintable = true →
    SpelledAs e.printedLevel e.render.toList e
  | .var name, printable => by
    intro pre rest stops
    rw [Expr.isPrintable] at printable
    exact ⟨_, .name name, reads_name printable pre stops, .atom (.name rfl), rfl⟩
  | .int value, printable => by
    rw [Expr.isPrintable, decide_eq_true_eq] at printable
    rw [Expr.render, Int.toString_eq_repr, Int.repr_eq_if]
    split
    · next positive =>
      intro pre rest stops
      have same : value.toInt = value.toInt.toNat := (Int.toNat_of_nonneg positive).symm
      rw [Nat.toList_repr]
      exact ⟨_, .int value, reads_digits same pre stops, .atom (.int rfl), rfl⟩
    · next negative =>
      have same : value.toInt = -((-value.toInt).toNat : Int) := by omega
      rw [String.toList_append, Nat.toList_repr]
      exact SpelledAs.negative same printable
  | .bool value, _ => by
    intro pre rest stops
    have reads := reads_truth value pre stops
    cases value with
    | true => exact ⟨_, .bool true, reads, .atom (.yes rfl), rfl⟩
    | false => exact ⟨_, .bool false, reads, .atom (.no rfl), rfl⟩
  | .not operand, printable => by
    rw [Expr.isPrintable] at printable
    rw [Expr.render, String.toList_append]
    exact (spelledAs_render printable).operand.bang (head?_asOperand (head?_render printable))
  | .arith left op right, printable => by
    simp only [Expr.isPrintable, Bool.and_eq_true] at printable
    simp only [Expr.render, String.toList_append, List.append_assoc]
    exact SpelledAs.binary (.arith op) (spelledAs_render printable.1).operand
      (spelledAs_render printable.2).operand
  | .compare left op right, printable => by
    simp only [Expr.isPrintable, Bool.and_eq_true] at printable
    simp only [Expr.render, String.toList_append, List.append_assoc]
    exact SpelledAs.binary (.compare op) (spelledAs_render printable.1).operand
      (spelledAs_render printable.2).operand
  | .equality left op right, printable => by
    simp only [Expr.isPrintable, Bool.and_eq_true] at printable
    simp only [Expr.render, String.toList_append, List.append_assoc]
    exact SpelledAs.binary (.equality op) (spelledAs_render printable.1).operand
      (spelledAs_render printable.2).operand
  | .logic left op right, printable => by
    simp only [Expr.isPrintable, Bool.and_eq_true] at printable
    simp only [Expr.render, String.toList_append, List.append_assoc]
    exact SpelledAs.binary (.logic op) (spelledAs_render printable.1).operand
      (spelledAs_render printable.2).operand
  | .call name [], printable => by
    simp only [Expr.isPrintable, Bool.and_eq_true] at printable
    simp only [Expr.render, String.toList_append, List.append_assoc]
    exact SpelledAs.call printable.1 fun pre rest => ⟨[], [], .nil, .none, rfl⟩
  | .call name (e :: arguments), printable => by
    simp only [Expr.isPrintable, Expr.arePrintable, Bool.and_eq_true] at printable
    simp only [Expr.render, Expr.renderAll, String.toList_append, List.append_assoc,
      toList_intercalate_cons]
    rw [← List.append_assoc e.render.toList]
    refine SpelledAs.call printable.1 fun pre rest => ?_
    obtain ⟨ts, tree, reads, derives, rfl⟩ :=
      (spelledAs_render printable.2.1).loosen (Nat.zero_le _) e.printedLevel_le pre _
        (stops_moreWords (Expr.renderAll arguments) rest)
    obtain ⟨us, trees, reads', derives', rfl⟩ :=
      spelledAs_more printable.2.2 (pre ++ tree.value.render.toList) rest
    exact ⟨_, tree :: trees, reads.append reads', .some derives derives', rfl⟩

/-- The arguments after the first. -/
theorem spelledAs_more : ∀ {arguments : List Expr}, Expr.arePrintable arguments = true →
    ∀ pre rest, ∃ ts trees, Reads (')' :: rest) pre (moreWords (Expr.renderAll arguments)) ts ∧
      DerivesMoreArguments ts trees ∧ ExprTree.values trees = arguments
  | [], _, pre, rest => ⟨[], [], .nil, .done, rfl⟩
  | e :: arguments, printable, pre, rest => by
    simp only [Expr.arePrintable, Bool.and_eq_true] at printable
    obtain ⟨ts, tree, reads, derives, rfl⟩ :=
      (spelledAs_render printable.1).loosen (Nat.zero_le _) e.printedLevel_le (pre ++ [','] ++ [' ']) _
        (stops_moreWords (Expr.renderAll arguments) rest)
    obtain ⟨us, trees, reads', derives', rfl⟩ :=
      spelledAs_more printable.2 (pre ++ [','] ++ [' '] ++ tree.value.render.toList) rest
    have whole := (reads_comma pre _).append ((reads_blank _ _).append (reads.append reads'))
    exact ⟨_ :: (ts ++ us), tree :: trees, whole, .more rfl derives derives', rfl⟩

end

end Dataflow
