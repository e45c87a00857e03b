/-!
# Tokens

The words of the language: keywords, identifiers, decimal literals and symbols. The text of a token
is the spelling that messages and printed programs use; the two constants have a second spelling
with a capital letter, which reads as the same token.
-/

set_option autoImplicit false

namespace Dataflow

/-- The reserved words. -/
inductive Keyword where
  | function
  | ifWord
  | elseWord
  | whileWord
  | returnWord
  | andWord
  | orWord
  | trueWord
  | falseWord
deriving DecidableEq

namespace Keyword

/-- The standard spelling. -/
def text : Keyword → String
  | function => "function"
  | ifWord => "if"
  | elseWord => "else"
  | whileWord => "while"
  | returnWord => "return"
  | andWord => "and"
  | orWord => "or"
  | trueWord => "true"
  | falseWord => "false"

/-- Every spelling with the keyword it stands for. -/
def spellings : List (String × Keyword) :=
  [("function", function), ("if", ifWord), ("else", elseWord), ("while", whileWord),
   ("return", returnWord), ("and", andWord), ("or", orWord), ("true", trueWord),
   ("True", trueWord), ("false", falseWord), ("False", falseWord)]

/-- The keyword with a given spelling. -/
def ofText? (word : String) : Option Keyword :=
  spellings.lookup word

end Keyword

/-- Delimiters, punctuation and operators. -/
inductive Symbol where
  | leftParen
  | rightParen
  | leftBrace
  | rightBrace
  | comma
  | semicolon
  | assign
  | plus
  | minus
  | star
  | slash
  | less
  | greater
  | lessEqual
  | greaterEqual
  | equalEqual
  | notEqual
  | bang
deriving DecidableEq

namespace Symbol

/-- The spelling. -/
def text : Symbol → String
  | leftParen => "("
  | rightParen => ")"
  | leftBrace => "\x7b"
  | rightBrace => "\x7d"
  | comma => ","
  | semicolon => ";"
  | assign => "="
  | plus => "+"
  | minus => "-"
  | star => "*"
  | slash => "/"
  | less => "<"
  | greater => ">"
  | lessEqual => "<="
  | greaterEqual => ">="
  | equalEqual => "=="
  | notEqual => "!="
  | bang => "!"

/-- The symbol of a character together with a following `=`. -/
def withEqual? : Char → Option Symbol
  | '<' => some lessEqual
  | '>' => some greaterEqual
  | '=' => some equalEqual
  | '!' => some notEqual
  | _ => none

/-- The symbol of a single character. -/
def ofChar? : Char → Option Symbol
  | '(' => some leftParen
  | ')' => some rightParen
  | '\x7b' => some leftBrace
  | '\x7d' => some rightBrace
  | ',' => some comma
  | ';' => some semicolon
  | '=' => some assign
  | '+' => some plus
  | '-' => some minus
  | '*' => some star
  | '/' => some slash
  | '<' => some less
  | '>' => some greater
  | '!' => some bang
  | _ => none

end Symbol

/-- A word of the language. -/
inductive Token where
  | keyword (word : Keyword)
  | identifier (name : String)
  | int (value : Int64)
  | symbol (mark : Symbol)
deriving DecidableEq

/-- The text of a token in messages. -/
def Token.text : Token → String
  | keyword word => word.text
  | identifier name => name
  | int value => toString value.toInt
  | symbol mark => mark.text

end Dataflow
