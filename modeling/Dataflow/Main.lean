import Dataflow.Command.Run

/-!
# The program

Reads the file that the command line names and prints the outcome.
-/

set_option autoImplicit false

namespace Dataflow.Command

/-- The number of a failed file operation. -/
def failureNumber : IO.Error → UInt32
  | .noFileOrDirectory _ number _ => number
  | .inappropriateType _ number _ => number
  | .invalidArgument _ number _ => number
  | .permissionDenied _ number _ => number
  | _ => 0

/-- The text of a file on disk. -/
def readFile (path : String) : IO (Except FileFault String) := do
  try
    return Files.decode (← IO.FS.readBinFile path)
  catch cause =>
    return .error ((FileFault.ofNumber? (failureNumber cause)).getD (.other (toString cause)))

/-- The file that a request reads. -/
def Request.path? : Request → Option String
  | .analyze request => some request.path
  | .graph path _ => some path
  | _ => none

/-- The files a command line needs, read from disk. -/
def filesFor (words : List String) : IO Files := do
  match (Request.ofWords words).toOption.bind Request.path? with
  | none => return fun _ => .error .missing
  | some path =>
    let text ← readFile path
    return fun _ => text

end Dataflow.Command

/-- Carries out the command line. -/
def main (words : List String) : IO UInt32 := do
  let outcome := Dataflow.Command.run (← Dataflow.Command.filesFor words) words
  (← IO.getStdout).putStr outcome.output
  (← IO.getStderr).putStr outcome.errors
  return UInt32.ofNat outcome.code
