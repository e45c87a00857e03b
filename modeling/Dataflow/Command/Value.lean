import Dataflow.Command.Number
import Dataflow.Command.Usage

/-!
# Values of parameters

How the text of a value is read for each parameter, or why it cannot be.
-/

set_option autoImplicit false

namespace Dataflow.Command

/-- A count, or why the text is none. -/
def readLimit (text : String) : Except String Nat :=
  (readCount text).mapError NumberFault.message

/-- A widening strategy, or why the text is none. -/
def readStrategy (text : String) : Except String Strategy :=
  if text = "never" then .ok .never
  else if text = "loop-heads" then .ok .loopHeads
  else match text.dropPrefix? "delayed:" with
    | some rest =>
      match readCount rest.toString with
      | .ok count => .ok (.delayed count)
      | .error fault => .error ("invalid delay `" ++ rest.toString ++ "`: " ++ fault.message)
    | none =>
      .error ("unknown widening `" ++ text ++ "`, expected `never`, `loop-heads` or `delayed:N`")

/-- An interval size, or why the text is none. -/
def readSize (text : String) : Except String IntervalSize :=
  match readSigned text with
  | .error fault => .error fault.message
  | .ok n =>
    if 0 ≤ n ∧ n ≤ 4294967295 then .ok (UInt32.ofNat n.toNat)
    else .error (toString n ++ " is not in 0..=4294967295")

/-- An analysis by its name. -/
def readDomain? (text : String) : Option Domain :=
  [Domain.zero, .interval].find? (·.name = text)

/-- The setting that a value gives to a parameter; `argument` is where the value stands. -/
def readValue (argument : Argument) (parameter : Parameter) (value : String) :
    Except UsageError Setting :=
  let checked {α : Type} (make : α → Setting) : Except String α → Except UsageError Setting
    | .ok result => .ok (make result)
    | .error reason => .error (.invalid value argument (some reason))
  match parameter with
  | .file => if value.isEmpty then .error (.missingValue argument) else .ok (.file value)
  | .analysis =>
    match readDomain? value with
    | some domain => .ok (.analysis domain)
    | none =>
      if value.isEmpty then .error (.missingValue argument)
      else .error (.invalid value argument none)
  | .function => .ok (.function value)
  | .maxIterations => checked .maxIterations (readLimit value)
  | .intervalSize => checked .intervalSize (readSize value)
  | .widening => checked .widening (readStrategy value)
  | .limit => checked .limit (readLimit value)

end Dataflow.Command
