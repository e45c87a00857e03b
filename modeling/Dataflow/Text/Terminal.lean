/-!
# Texts without terminal control

What is left of a text when everything that steers a terminal is taken out: escape sequences with
their parameters, device and operating-system strings, and control characters other than tabs, line
ends and form feeds. A sequence that is not finished hides the text up to its end. Text that is being
shown stays shown up to the next control character, whatever sequence was open before it.
-/

set_option autoImplicit false

namespace Dataflow.Text

/-- What the characters so far have begun. -/
inductive Control where
  /-- Nothing. -/
  | plain
  /-- A sequence of which only the escape character was read. -/
  | escape
  /-- A short sequence, up to a final character. -/
  | short
  /-- A control sequence with parameters, up to a final character. -/
  | sequence
  /-- A device string before its parameters. -/
  | deviceEntry
  /-- A device string in its parameters. -/
  | deviceParameter
  /-- A device string after its parameters. -/
  | deviceIntermediate
  /-- A string up to the string terminator. -/
  | string
  /-- An operating-system command up to the bell. -/
  | command
deriving DecidableEq

namespace Control

/-- Characters from one code to another. -/
def within (c : Char) (first last : Nat) : Bool :=
  decide (first ≤ c.toNat) && decide (c.toNat ≤ last)

/-- The characters that abandon any sequence. -/
def cancels (c : Char) : Bool := decide (c.toNat = 24) || decide (c.toNat = 26)

/-- The escape character. -/
def isEscape (c : Char) : Bool := decide (c.toNat = 27)

/-- Characters whose UTF-8 form holds the byte of the string terminator. -/
def holdsTerminator (c : Char) : Bool := (String.utf8EncodeChar c).contains 156

/-- Tabs, line ends and form feeds. -/
def isBlank (c : Char) : Bool := within c 9 10 || within c 12 13

/-- Characters shown outside any sequence. -/
def isPrinted (c : Char) : Bool :=
  isBlank c || (decide (32 ≤ c.toNat) && decide (c.toNat ≠ 127))

/-- Characters shown in a given state. -/
def shows : Control → Char → Bool
  | plain, c => isPrinted c
  | escape, c => isBlank c
  | short, c => isBlank c
  | sequence, c => isBlank c
  | _, _ => false

/-- What an escape character and the one after it begin. -/
def begin (c : Char) : Control :=
  if c = '[' then sequence
  else if c = ']' then command
  else if c = 'P' then deviceEntry
  else if c = 'X' ∨ c = '^' ∨ c = '_' then string
  else if within c 32 47 then short
  else if within c 48 126 then plain
  else escape

/-- The state after a character that abandons nothing. -/
def advance : Control → Char → Control
  | plain, _ => plain
  | escape, c => begin c
  | short, c => if within c 48 126 then plain else short
  | sequence, c => if within c 64 126 then plain else sequence
  | deviceEntry, c =>
    if within c 64 126 then string
    else if within c 48 63 then deviceParameter
    else if within c 32 47 then deviceIntermediate
    else deviceEntry
  | deviceParameter, c =>
    if within c 60 126 then string
    else if within c 32 47 then deviceIntermediate
    else deviceParameter
  | deviceIntermediate, c => if within c 48 126 then string else deviceIntermediate
  | string, c => if holdsTerminator c then plain else string
  | command, c => if c.toNat = 7 then plain else command

/-- The state after a character. -/
def next (state : Control) (c : Char) : Control :=
  if cancels c then plain else if isEscape c then escape else state.advance c

/-- The state after a character of shown text: only characters that begin or abandon a sequence and
those outside ASCII matter. -/
def nextShown (state : Control) (c : Char) : Control :=
  if cancels c then plain
  else if isEscape c then escape
  else if 128 ≤ c.toNat then plain
  else state

end Control

/-- The shown characters of a text, given the state before it and whether text is being shown. -/
def shownChars : Control → Bool → List Char → List Char
  | _, _, [] => []
  | state, shown, c :: rest =>
    let state := if shown then state.nextShown c else state
    if shown && Control.isPrinted c then c :: shownChars state true rest
    else if state.shows c then c :: shownChars (state.next c) true rest
    else shownChars (state.next c) false rest

/-- A text without terminal control. -/
def visible (text : String) : String := String.ofList (shownChars .plain false text.toList)

end Dataflow.Text
