import Dataflow.Checked
import Dataflow.Text.Identifier
import Dataflow.Text.Position
import Dataflow.Token

/-!
# Lexemes

A text is cut into consecutive pieces: blanks, comments, tokens, and pieces that no rule reads. Each
piece is the longest one any rule has at its start, and the pieces in order spell the whole text.
Places are byte offsets, computed from the lengths of the pieces.
-/

set_option autoImplicit false

namespace Dataflow

/-- What a piece of text is. -/
inductive Piece where
  /-- A run of blanks. -/
  | blank
  /-- A comment of either form. -/
  | comment
  /-- A token. -/
  | token (value : Token)
  /-- A character no rule starts with, or a literal too large for a word. -/
  | unknown
deriving DecidableEq

/-- A piece together with the characters it covers. -/
structure Lexeme where
  piece : Piece
  text : List Char
deriving DecidableEq

namespace Lexeme

/-- Blanks: space, tab, carriage return, line feed and form feed. -/
def isBlank (c : Char) : Bool :=
  c == ' ' || c == '\t' || c == '\r' || c == '\n' || c == '\x0c'

/-- A line comment ends before a line feed or a carriage return. -/
def isLineEnd (c : Char) : Bool :=
  c == '\n' || c == '\r'

/-- A text up to and with its first `*/`. -/
def throughClose? : List Char → Option (List Char)
  | [] => none
  | '*' :: '/' :: _ => some ['*', '/']
  | c :: rest => (throughClose? rest).map (c :: ·)

/-- The value of a run of decimal digits. -/
def decimalValue (digits : List Char) : Nat :=
  digits.foldl (fun value digit => 10 * value + (digit.toNat - '0'.toNat)) 0

/-- The piece a run of digits is. -/
def ofDigits (digits : List Char) : Lexeme :=
  match Checked.ofInt? (decimalValue digits) with
  | some value => ⟨.token (.int value), digits⟩
  | none => ⟨.unknown, digits⟩

/-- The piece a run of identifier characters is: a keyword when it has the spelling of one. -/
def ofWord (word : List Char) : Lexeme :=
  let name := String.ofList word
  match Keyword.ofText? name with
  | some key => ⟨.token (.keyword key), word⟩
  | none => ⟨.token (.identifier name), word⟩

/-- The piece that starts with a character of no other class: the longest symbol. -/
def ofMark (c : Char) (rest : List Char) : Lexeme :=
  match Symbol.withEqual? c, rest with
  | some mark, '=' :: _ => ⟨.token (.symbol mark), [c, '=']⟩
  | _, _ =>
    match Symbol.ofChar? c with
    | some mark => ⟨.token (.symbol mark), [c]⟩
    | none => ⟨.unknown, [c]⟩

/-- The piece that starts with `/`: a comment when one can be read, otherwise the symbol. -/
def ofSlash : List Char → Lexeme
  | '/' :: rest => ⟨.comment, '/' :: '/' :: rest.takeWhile (!isLineEnd ·)⟩
  | '*' :: rest =>
    match throughClose? rest with
    | some body => ⟨.comment, '/' :: '*' :: body⟩
    | none => ⟨.token (.symbol .slash), ['/']⟩
  | _ => ⟨.token (.symbol .slash), ['/']⟩

/-- The first piece of the text `c :: rest`. -/
def first (c : Char) (rest : List Char) : Lexeme :=
  if isBlank c then ⟨.blank, c :: rest.takeWhile isBlank⟩
  else if c = '/' then ofSlash rest
  else if c.isDigit then ofDigits (c :: rest.takeWhile Char.isDigit)
  else if Text.isIdentifierStart c then ofWord (c :: rest.takeWhile Text.isIdentifierContinue)
  else ofMark c rest

/-- The pieces of a text, cut off one after the other; `budget` bounds their number. -/
def cut : Nat → List Char → List Lexeme
  | 0, _ => []
  | _ + 1, [] => []
  | budget + 1, c :: rest =>
    let piece := first c rest
    piece :: cut budget (rest.drop (piece.text.length - 1))

/-- The pieces of a text. Each has a character, so a text has no more pieces than characters. -/
def ofText (text : List Char) : List Lexeme :=
  cut text.length text

end Lexeme

/-- A value with the byte offsets at which its text starts and ends. -/
structure Spanned (α : Type) where
  value : α
  start : Nat
  stop : Nat
deriving DecidableEq

/-- Consecutive lexemes, the first of which starts at `offset`, with their places. -/
def placeLexemes : Nat → List Lexeme → List (Spanned Lexeme)
  | _, [] => []
  | offset, lexeme :: rest =>
    let stop := offset + Text.byteLength lexeme.text
    ⟨lexeme, offset, stop⟩ :: placeLexemes stop rest

/-- What a piece contributes to reading: nothing when it is skipped, otherwise a token or the
absence of one. -/
def Piece.reading? : Piece → Option (Option Token)
  | .blank => none
  | .comment => none
  | .token value => some (some value)
  | .unknown => some none

/-- The tokens of a text in order, with `none` for each piece that no rule reads. -/
def readTokens (text : List Char) : List (Spanned (Option Token)) :=
  (placeLexemes 0 (Lexeme.ofText text)).filterMap fun item =>
    item.value.piece.reading?.map fun reading => ⟨reading, item.start, item.stop⟩

/-- The message for a piece that no rule reads. -/
def unreadableMessage (start : Nat) : String :=
  "Unexpected token at position " ++ toString start

end Dataflow
