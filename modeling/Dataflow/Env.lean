import Dataflow.NameMap
import Dataflow.ValueLattice.Basic

/-!
# Environments

An environment binds names to abstract values. Reading an unbound name gives the top value; a join
keeps the value of a name that only one side binds; in the order an unbound name counts as bottom.
-/

set_option autoImplicit false

namespace Dataflow

/-- Abstract values of variables. -/
abbrev Env (α : Type) := NameMap α

namespace Env

variable {α : Type}

/-- Every listed name bound to one value. -/
def uniform (names : List String) (value : α) : Env α :=
  NameMap.ofList (names.map fun name => (name, value))

/-- The value of a name, the top value when it is unbound. -/
def lookup (L : ValueLattice α) (env : Env α) (name : String) : α :=
  (NameMap.get? env name).getD L.top

/-- The environment with some bindings overwritten. -/
def updated (env bindings : Env α) : Env α :=
  bindings.entries.foldl (fun m binding => NameMap.insert m binding.1 binding.2) env

/-- The bindings of the second environment brought into the first, with `f` on a name that both bind
and its two values. -/
def combine (f : String → α → α → α) (env other : Env α) : Env α :=
  other.entries.foldl (fun m binding =>
    NameMap.insert m binding.1 (match NameMap.get? env binding.1 with
      | some current => f binding.1 current binding.2
      | none => binding.2)) env

/-- The pointwise join, one name after the other. -/
def join (L : ValueLattice α) (env other : Env α) : Env α :=
  other.entries.foldl (fun m binding =>
    NameMap.insert m binding.1 (match NameMap.get? m binding.1 with
      | some current => L.join current binding.2
      | none => binding.2)) env

/-- The meet with some bindings, one name after the other; there is none when the value of a name
becomes bottom. -/
def refine? [DecidableEq α] (L : ValueLattice α) (env bindings : Env α) : Option (Env α) :=
  bindings.entries.foldlM (fun m binding =>
    let refined := match NameMap.get? m binding.1 with
      | some current => L.meet current binding.2
      | none => binding.2
    if L.isBottom refined then none else some (NameMap.insert m binding.1 refined)) env

/-- The pointwise order. -/
def atMost [DecidableEq α] (L : ValueLattice α) (env other : Env α) : Bool :=
  env.entries.all fun binding =>
    match NameMap.get? other binding.1 with
    | some bound => L.atMost binding.2 bound
    | none => L.isBottom binding.2

/-- The text of an environment, given the text of its values. -/
def render (text : α → String) (env : Env α) : String :=
  "\x7b" ++ ", ".intercalate (env.entries.map fun binding => binding.1 ++ ": " ++ text binding.2)
    ++ "\x7d"

end Env

end Dataflow
