/-!
# Structured documents

Texts, numbers, lists and records with named fields, written as JSON: one item or field to a line,
two blanks of indentation to a level, and nothing between the brackets of an empty list or record.
-/

set_option autoImplicit false

namespace Dataflow.Text

/-- A structured document. -/
inductive Document where
  | text (value : String)
  | number (value : Nat)
  | list (items : List Document)
  | record (fields : List (String × Document))

namespace Document

/-- A character of a quoted text: quotes, backslashes and control characters are escaped. -/
def escape (c : Char) : String :=
  if c = '"' then "\\\""
  else if c = '\\' then "\\\\"
  else if c = '\n' then "\\n"
  else if c = '\r' then "\\r"
  else if c = '\t' then "\\t"
  else if c.toNat = 8 then "\\b"
  else if c.toNat = 12 then "\\f"
  else if c.toNat < 16 then "\\u000" ++ String.ofList (Nat.toDigits 16 c.toNat)
  else if c.toNat < 32 then "\\u00" ++ String.ofList (Nat.toDigits 16 c.toNat)
  else c.toString

/-- A text in quotes. -/
def quote (value : String) : String :=
  "\"" ++ String.join (value.toList.map escape) ++ "\""

/-- The blanks before a line at a given depth. -/
def indentation (depth : Nat) : String :=
  String.ofList (List.replicate (2 * depth) ' ')

/-- Lines between brackets, the closing one at a given depth. -/
def bracketed (opening closing : String) (depth : Nat) (lines : List String) : String :=
  if lines.isEmpty then opening ++ closing
  else opening ++ "\n" ++ ",\n".intercalate lines ++ "\n" ++ indentation depth ++ closing

mutual

/-- A document whose first line is at a given depth. -/
def renderAt (depth : Nat) : Document → String
  | text value => quote value
  | number value => toString value
  | list items => bracketed "[" "]" depth (renderItems (depth + 1) items)
  | record fields => bracketed "\x7b" "\x7d" depth (renderFields (depth + 1) fields)

/-- The items of a list, each at a given depth. -/
def renderItems (depth : Nat) : List Document → List String
  | [] => []
  | item :: rest => (indentation depth ++ renderAt depth item) :: renderItems depth rest

/-- The fields of a record, each at a given depth. -/
def renderFields (depth : Nat) : List (String × Document) → List String
  | [] => []
  | (name, value) :: rest =>
    (indentation depth ++ quote name ++ ": " ++ renderAt depth value) :: renderFields depth rest

end

/-- The text of a document. -/
def render (document : Document) : String := document.renderAt 0

end Document

end Dataflow.Text
