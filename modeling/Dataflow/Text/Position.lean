/-!
# Byte offsets, lines and columns

A text is a list of characters; places in it are byte offsets of its UTF-8 form. A line ends with
the character `'\n'` and with no other. Lines and columns are counted from one, columns in bytes.
-/

set_option autoImplicit false

namespace Dataflow.Text

/-- The number of bytes in the UTF-8 form of a text. -/
def byteLength (text : List Char) : Nat :=
  (text.map Char.utf8Size).foldr (· + ·) 0

/-- What is left of a text after its first `count` bytes. -/
def dropBytes : Nat → List Char → List Char
  | 0, text => text
  | _ + 1, [] => []
  | count + 1, c :: rest => dropBytes (count + 1 - c.utf8Size) rest

/-- The first `count` bytes of a text. -/
def takeBytes : Nat → List Char → List Char
  | 0, _ => []
  | _ + 1, [] => []
  | count + 1, c :: rest => c :: takeBytes (count + 1 - c.utf8Size) rest

/-- The part of a text between two byte offsets. -/
def slice (text : List Char) (start stop : Nat) : List Char :=
  takeBytes (stop - start) (dropBytes start text)

/-- A place in a text, counted from one. -/
structure Position where
  line : Nat
  column : Nat
deriving DecidableEq

/-- The offsets at which the lines of a text start, in ascending order. -/
structure LineIndex where
  starts : List Nat

namespace LineIndex

/-- The line starts after the one that holds `offset`, for the text that begins there. -/
def startsAfter : Nat → List Char → List Nat
  | _, [] => []
  | offset, c :: rest =>
    let next := offset + c.utf8Size
    if c = '\n' then next :: startsAfter next rest else startsAfter next rest

/-- The line index of a text: the first line starts at its beginning. -/
def ofText (text : List Char) : LineIndex :=
  ⟨0 :: startsAfter 0 text⟩

/-- The starts of the lines up to the one that holds `offset`. -/
def upTo (index : LineIndex) (offset : Nat) : List Nat :=
  index.starts.takeWhile (· ≤ offset)

/-- The line that holds `offset`. -/
def line (index : LineIndex) (offset : Nat) : Nat :=
  (index.upTo offset).length

/-- The line and column of `offset`. -/
def position (index : LineIndex) (offset : Nat) : Position :=
  ⟨index.line offset, offset - (index.upTo offset).getLastD 0 + 1⟩

end LineIndex

end Dataflow.Text
