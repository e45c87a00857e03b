/-!
# Edit distance

The number of insertions, deletions and replacements of single characters that turn one text into
another. A row holds the distances from one beginning of the first text to every beginning of the
second, shortest first.
-/

set_option autoImplicit false

namespace Dataflow.Text

/-- The rest of the next row, given the distance to its left and the last row from the diagonal
neighbour on. -/
def restOfRow (c : Char) : Nat → List Char → List Nat → List Nat
  | left, d :: rest, diagonal :: above :: row =>
    let replaced := if c = d then diagonal else diagonal + 1
    let here := min (min (left + 1) (above + 1)) replaced
    here :: restOfRow c here rest (above :: row)
  | _, _, _ => []

/-- The row after one more character of the first text. -/
def nextRow (other : List Char) (row : List Nat) (c : Char) : List Nat :=
  let first := row.headD 0 + 1
  first :: restOfRow c first other row

/-- The edit distance of two texts. -/
def distance (text other : String) : Nat :=
  let start := List.range (other.toList.length + 1)
  (text.toList.foldl (nextRow other.toList) start).getLastD 0

/-- The first text with the least distance to a given one. -/
def nearest? (text : String) : List String → Option String
  | [] => none
  | candidate :: rest =>
    match nearest? text rest with
    | none => some candidate
    | some other =>
      if distance text candidate ≤ distance text other then some candidate else some other

end Dataflow.Text
