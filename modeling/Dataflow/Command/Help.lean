import Dataflow.Command.Parameter

/-!
# Help texts

What a topic is about and how it is used.
-/

set_option autoImplicit false

namespace Dataflow.Command

/-- What a subcommand does. -/
def Subcommand.about : Subcommand → String
  | analyze => "Analyze a source file and print the environment at every program point"
  | graph => "Print the control-flow graph of each function in a source file"
  | lattice => "List the values of a lattice, bottom first"

namespace Topic

/-- The first line of a help text. -/
def about : Topic → String
  | program => "Abstract interpretation for the Small language"
  | subcommand s => s.about
  | help => "Print this message or the help of the given subcommand(s)"

/-- How a topic is written on a command line. -/
def usage : Topic → String
  | program => "small [OPTIONS] <COMMAND>"
  | subcommand s => "small " ++ s.name ++ " [OPTIONS] " ++ s.operand.placeholder
  | help => "small help [COMMAND]..."

/-- The line of an option. -/
def optionLine (argument : Argument) : String :=
  (match argument.short? with
    | some c => "  -" ++ c.toString ++ ", "
    | none => "      ") ++ argument.render ++ "\n"

/-- The options of a topic, one to a line. -/
def optionLines (topic : Topic) : String :=
  if topic.options.isEmpty then ""
  else "\nOptions:\n" ++ String.join (topic.options.map optionLine)

/-- The help text of a topic. -/
def text (topic : Topic) : String :=
  topic.about ++ "\n\nUsage: " ++ topic.usage ++ "\n" ++ topic.optionLines

end Topic

end Dataflow.Command
