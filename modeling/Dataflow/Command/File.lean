/-!
# Files

The texts of files by path, and a directory as such a function. A path is followed part by part:
empty parts and dots stay where they are, nothing is known outside the directory, and the first part
that leads nowhere decides the fault.
-/

set_option autoImplicit false

namespace Dataflow.Command

/-- Why a file has no text. -/
inductive FileFault where
  | missing
  /-- The path names a directory. -/
  | directory
  /-- The path goes on behind a file. -/
  | notDirectory
  /-- The path or a part of it is longer than a path may be. -/
  | tooLong
  /-- Reading is not permitted. -/
  | denied
  /-- The bytes are not UTF-8. -/
  | notText
  | other (message : String)
deriving DecidableEq

/-- The message of a fault. -/
def FileFault.message : FileFault → String
  | missing => "No such file or directory (os error 2)"
  | directory => "Is a directory (os error 21)"
  | notDirectory => "Not a directory (os error 20)"
  | tooLong => "File name too long (os error 36)"
  | denied => "Permission denied (os error 13)"
  | notText => "stream did not contain valid UTF-8"
  | other message => message

/-- The fault behind the number of a failed operation; some operations negate it. -/
def FileFault.ofNumber? (number : UInt32) : Option FileFault :=
  match (if number < 2147483648 then number else 0 - number).toNat with
  | 2 => some missing
  | 13 => some denied
  | 20 => some notDirectory
  | 21 => some directory
  | 36 => some tooLong
  | _ => none

/-- The texts of files by path. -/
abbrev Files := String → Except FileFault String

namespace Files

/-- The text of a file with given bytes. -/
def decode (bytes : ByteArray) : Except FileFault String :=
  match String.fromUTF8? bytes with
  | some text => .ok text
  | none => .error .notText

/-- The largest number of bytes in a part of a path. -/
def longestPart : Nat := 255

/-- The largest number of bytes in a path. -/
def longestPath : Nat := 4095

/-- Path parts that stay where they are. -/
def stays (part : String) : Bool := part.isEmpty || part == "."

/-- Path parts that stay where they are or lead to the directory above. -/
def rises (part : String) : Bool := stays part || part == ".."

/-- The file that the parts of a path lead to in a directory with the given files. -/
def follow (entries : List (String × ByteArray)) : List String → Except FileFault String
  | [] => .error .directory
  | part :: rest =>
    if stays part then follow entries rest
    else if longestPart < part.utf8ByteSize then .error .tooLong
    else
      match entries.lookup part with
      | some bytes => if rest.isEmpty then decode bytes else .error .notDirectory
      | none => .error (if (part :: rest).all rises then .directory else .missing)

/-- The files of a directory, by path. -/
def ofDirectory (entries : List (String × ByteArray)) : Files := fun path =>
  if longestPath < path.utf8ByteSize then .error .tooLong
  else follow (if path.startsWith "/" then [] else entries) (path.splitOn "/")

end Files

end Dataflow.Command
