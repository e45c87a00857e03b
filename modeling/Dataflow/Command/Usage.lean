import Dataflow.Command.Help
import Dataflow.Text.Terminal

/-!
# Usage errors

Why a command line cannot be carried out, and how that is said. The words of the user stand in the
message between style marks, so each stretch of the message between two marks loses its terminal
control on its own.
-/

set_option autoImplicit false

namespace Dataflow.Command

/-- Why a command line cannot be carried out. -/
inductive UsageError where
  /-- Nothing was asked for. -/
  | nothingAsked
  | missingSubcommand
  | unknownSubcommand (word : String)
  /-- No argument accepts the word. -/
  | unexpected (word : String)
  /-- A flag was given a value. -/
  | unexpectedValue (value : String) (flag : Flag)
  | missingValue (argument : Argument)
  | repeated (argument : Argument)
  /-- The value cannot be read, for a reason if there is more to say. -/
  | invalid (value : String) (argument : Argument) (reason : Option String)
  | missingOperand (parameter : Parameter)
deriving DecidableEq

namespace UsageError

/-- Where a message points to the help, up to the name of the flag. -/
def pointer : String := "\n\nFor more information, try '"

/-- The stretches of the message up to the name of the help flag. -/
def stretches : UsageError → List String
  | nothingAsked => []
  | missingSubcommand =>
    ["error: 'small' requires a subcommand but one was not provided" ++ pointer]
  | unknownSubcommand word => ["error: unrecognized subcommand '", word, "'" ++ pointer]
  | unexpected word => ["error: unexpected argument '", word, "' found" ++ pointer]
  | unexpectedValue value flag =>
    ["error: unexpected value '", value, "' for '", (Argument.flag flag).render,
      "' found; no more were expected" ++ pointer]
  | missingValue argument =>
    ["error: a value is required for '", argument.render, "' but none was supplied" ++ pointer]
  | repeated argument =>
    ["error: the argument '", argument.render, "' cannot be used multiple times" ++ pointer]
  | invalid value argument none =>
    ["error: invalid value '", value, "' for '", argument.render, "'" ++ pointer]
  | invalid value argument (some reason) =>
    ["error: invalid value '", value, "' for '", argument.render,
      "': " ++ reason ++ pointer]
  | missingOperand parameter =>
    ["error: the following required arguments were not provided:\n  ", parameter.placeholder,
      pointer]

/-- The message. Who asks for nothing gets the help of the program. -/
def message : UsageError → String
  | nothingAsked => Topic.program.text
  | e => String.join (e.stretches.map Text.visible) ++ "--help'.\n"

end UsageError

end Dataflow.Command
