import Dataflow.Command.Value

/-!
# Command-line arguments

A command line names a subcommand, then options and one operand in any order. The value of an option
stands behind an equals sign, directly behind a short name, or in the next word. A value in a word of
its own, like the operand, is held until the next known argument or the end, and only then read;
so a word that nothing accepts is reported before a held value that cannot be read. A request for
help ends the reading where it stands.
-/

set_option autoImplicit false

namespace Dataflow.Command

/-- Why words were not read to the end. -/
inductive Halt where
  /-- Help was asked for. -/
  | help (topic : Topic)
  | misuse (cause : UsageError)
deriving DecidableEq

/-- A held argument: an option whose value has yet to come has none. -/
structure Held where
  argument : Argument
  parameter : Parameter
  value : Option String
deriving DecidableEq

/-- What has been read of a command line. -/
structure Draft where
  settings : List Setting
  held : Option Held
  /-- Whether the operand was given. -/
  placed : Bool
deriving DecidableEq

namespace Draft

/-- Before the first word. -/
def empty : Draft := ⟨[], none, false⟩

/-- The draft with a value for a parameter that has none yet. -/
def add (draft : Draft) (argument : Argument) (parameter : Parameter) (value : String) :
    Except Halt Draft :=
  if draft.settings.any (·.sets parameter) then .error (.misuse (.repeated argument))
  else
    match readValue argument parameter value with
    | .ok setting => .ok { draft with settings := draft.settings ++ [setting] }
    | .error cause => .error (.misuse cause)

/-- The draft with the held argument read. -/
def settle (draft : Draft) : Except Halt Draft :=
  match draft.held with
  | none => .ok draft
  | some ⟨argument, _, none⟩ => .error (.misuse (.missingValue argument))
  | some ⟨argument, parameter, some value⟩ =>
    { draft with held := none }.add argument parameter value

/-- The draft with an option and its attached value. -/
def take (draft : Draft) (parameter : Parameter) (value : String) : Except Halt Draft :=
  match draft.settle with
  | .ok settled => settled.add (.option parameter) parameter value
  | .error halt => .error halt

/-- The draft with an argument held. -/
def hold (draft : Draft) (argument : Argument) (parameter : Parameter) (value : Option String) :
    Except Halt Draft :=
  match draft.settle with
  | .ok settled => .ok { settled with held := some ⟨argument, parameter, value⟩ }
  | .error halt => .error halt

/-- The draft with a flag, which must be new unless it may be repeated. -/
def raise (draft : Draft) (topic : Topic) (flag : Flag) : Except Halt Draft :=
  match draft.settle with
  | .error halt => .error halt
  | .ok settled =>
    if flag = .help then .error (.help topic)
    else if Setting.flag flag ∈ settled.settings ∧ flag.isRepeatable = false then
      .error (.misuse (.repeated (.flag flag)))
    else .ok { settled with settings := settled.settings ++ [.flag flag] }

end Draft

/-- A word after two dashes, cut at the first equals sign. -/
def cutValue (word : List Char) : String × Option String :=
  (String.ofList (word.takeWhile (· ≠ '=')),
    match word.dropWhile (· ≠ '=') with
    | [] => none
    | _ :: value => some (String.ofList value))

/-- Reads a word that starts with two dashes, given what follows them. -/
def readLong (topic : Topic) (draft : Draft) (word : List Char) : Except Halt Draft :=
  let cut := cutValue word
  match topic.options.find? (·.long? = some cut.1), cut.2 with
  | some (.flag flag), none => draft.raise topic flag
  | some (.flag flag), some value => .error (.misuse (.unexpectedValue value flag))
  | some (.option parameter), none => draft.hold (.option parameter) parameter none
  | some (.option parameter), some value => draft.take parameter value
  | _, _ => .error (.misuse (.unexpected ("--" ++ cut.1)))

/-- Reads a word that starts with one dash, given what follows it: flags, and perhaps an option with
the rest of the word as its value. -/
def readShort (topic : Topic) (draft : Draft) : List Char → Except Halt Draft
  | [] => .ok draft
  | c :: rest =>
    match topic.options.find? (·.short? = some c) with
    | some (.flag flag) =>
      match draft.raise topic flag with
      | .ok after => readShort topic after rest
      | .error halt => .error halt
    | some (.option parameter) =>
      match rest with
      | [] => draft.hold (.option parameter) parameter none
      | '=' :: value => draft.take parameter (String.ofList value)
      | value => draft.take parameter (String.ofList value)
    | _ => .error (.misuse (.unexpected ("-" ++ c.toString)))

/-- Reads a word that is the value of a waiting option or the operand. -/
def readPlain (subcommand : Subcommand) (literal : Bool) (draft : Draft) (word : String) :
    Except Halt Draft :=
  match literal, draft.held with
  | false, some ⟨argument, parameter, none⟩ =>
    .ok { draft with held := some ⟨argument, parameter, some word⟩ }
  | _, _ =>
    if draft.placed then .error (.misuse (.unexpected word))
    else
      match draft.hold (.operand subcommand.operand) subcommand.operand (some word) with
      | .ok after => .ok { after with placed := true }
      | .error halt => .error halt

/-- Reads the words after a subcommand; after two dashes alone every word is `literal`. -/
def readWords (subcommand : Subcommand) : Bool → Draft → List String → Except Halt Draft
  | _, draft, [] => draft.settle
  | literal, draft, word :: rest =>
    let plain := readPlain subcommand literal draft word
    let read := match literal, word.toList with
      | true, _ => plain
      | false, ['-', '-'] => .ok draft
      | false, '-' :: '-' :: name => readLong (.subcommand subcommand) draft name
      | false, ['-'] => plain
      | false, '-' :: names => readShort (.subcommand subcommand) draft names
      | false, _ => plain
    match read with
    | .ok after => readWords subcommand (literal || decide (word = "--")) after rest
    | .error halt => .error halt

/-- The topic that the words after the help subcommand name: at most one subcommand. -/
def readTopic : List String → Halt
  | [] => .help .program
  | [word] =>
    if word = "help" then .help .help
    else
      match Subcommand.ofName? word with
      | some subcommand => .help (.subcommand subcommand)
      | none => .misuse (.unknownSubcommand word)
  | first :: second :: _ =>
    if first = "help" ∨ (Subcommand.ofName? first).isSome then .misuse (.unknownSubcommand second)
    else .misuse (.unknownSubcommand first)

/-- Reads a word in the place of a subcommand, given the words after it. -/
def readSubcommand (literal : Bool) (word : String) (rest : List String) :
    Except Halt (Subcommand × List Setting) :=
  match Subcommand.ofName? word with
  | some subcommand =>
    if literal then .error (.misuse (.unexpected word))
    else
      match readWords subcommand false .empty rest with
      | .ok after => .ok (subcommand, after.settings)
      | .error halt => .error halt
  | none =>
    if word = "help" then
      .error (if literal then .misuse (.unexpected word) else readTopic rest)
    else .error (.misuse (.unknownSubcommand word))

/-- Reads the words up to a subcommand and that subcommand. -/
def readCommand : Bool → Draft → List String → Except Halt (Subcommand × List Setting)
  | _, draft, [] =>
    .error (.misuse (if draft.settings.isEmpty then .nothingAsked else .missingSubcommand))
  | literal, draft, word :: rest =>
    let goOn (read : Except Halt Draft) : Except Halt (Subcommand × List Setting) :=
      match read with
      | .ok after => readCommand literal after rest
      | .error halt => .error halt
    match literal, word.toList with
    | true, _ => readSubcommand literal word rest
    | false, ['-', '-'] => readCommand true draft rest
    | false, '-' :: '-' :: name => goOn (readLong .program draft name)
    | false, ['-'] => readSubcommand literal word rest
    | false, '-' :: names => goOn (readShort .program draft names)
    | false, _ => readSubcommand literal word rest

end Dataflow.Command
