import Dataflow.Operator
import Dataflow.ValueLattice.Basic

/-!
# Checking lattice laws on samples

Each check tries one family of laws on every choice of elements and lists a sentence for every
violation. A report numbers them.
-/

set_option autoImplicit false

namespace Dataflow.ValueLattice

variable {α : Type} [DecidableEq α]

/-- A sentence when a condition fails. -/
def violation (holds : Bool) (sentence : String) : List String :=
  if holds then [] else [sentence]

/-- One family of laws. -/
inductive LawFamily where
  | join
  | meet
  | absorption
  | ordering
  | bounds
  | irreflexive
  | covers
deriving DecidableEq

section

variable (L : ValueLattice α) (text : α → String)

/-- The text of an operation on two values. -/
def application (name : String) (a b : String) : String :=
  name ++ "(" ++ a ++ ", " ++ b ++ ")"

/-- Idempotence, commutativity and associativity of a binary operation. -/
def checkOperation (name : String) (op : α → α → α) (elements : List α) : List String :=
  elements.flatMap fun a =>
    violation (decide (op a a = a))
      (name ++ " not idempotent: " ++ application name (text a) (text a) ++ " != " ++ text a)
    ++ elements.flatMap fun b =>
      violation (decide (op a b = op b a))
        (name ++ " not commutative: " ++ application name (text a) (text b) ++ " != "
          ++ application name (text b) (text a))
      ++ elements.flatMap fun c =>
        violation (decide (op (op a b) c = op a (op b c)))
          (name ++ " not associative: "
            ++ application name (application name (text a) (text b)) (text c) ++ " != "
            ++ application name (text a) (application name (text b) (text c)))

/-- The absorption laws. -/
def checkAbsorption (elements : List α) : List String :=
  elements.flatMap fun a => elements.flatMap fun b =>
    violation (decide (L.join a (L.meet a b) = a))
      ("absorption violated: " ++ application "join" (text a) (application "meet" (text a) (text b))
        ++ " != " ++ text a)
    ++ violation (decide (L.meet a (L.join a b) = a))
      ("absorption violated: " ++ application "meet" (text a) (application "join" (text a) (text b))
        ++ " != " ++ text a)

/-- Agreement of the order with join and meet. -/
def checkOrdering (elements : List α) : List String :=
  elements.flatMap fun a => elements.flatMap fun b =>
    let order := L.atMost a b
    let joins := decide (L.join a b = b)
    let meets := decide (L.meet a b = a)
    let stated := application "is_subseteq" (text a) (text b) ++ " = " ++ Text.truth order ++ ", but "
    violation (order == joins)
      ("ordering inconsistent with join: " ++ stated ++ application "join" (text a) (text b)
        ++ " == " ++ text b ++ " is " ++ Text.truth joins)
    ++ violation (order == meets)
      ("ordering inconsistent with meet: " ++ stated ++ application "meet" (text a) (text b)
        ++ " == " ++ text a ++ " is " ++ Text.truth meets)

/-- The bounds as identities, annihilators and extremes. -/
def checkBounds (elements : List α) : List String :=
  elements.flatMap fun x =>
    violation (L.atMost L.bottom x) ("bottom not below element: " ++ text x)
    ++ violation (decide (L.join L.bottom x = x))
      ("bottom identity violated: " ++ application "join" "bottom" (text x) ++ " != " ++ text x)
    ++ violation (decide (L.meet L.bottom x = L.bottom))
      ("bottom annihilation violated: " ++ application "meet" "bottom" (text x) ++ " != bottom")
    ++ violation (L.atMost x L.top) ("element not below top: " ++ text x)
    ++ violation (decide (L.join L.top x = L.top))
      ("top annihilation violated: " ++ application "join" "top" (text x) ++ " != top")
    ++ violation (decide (L.meet L.top x = x))
      ("top identity violated: " ++ application "meet" "top" (text x) ++ " != " ++ text x)

/-- Strictness and antisymmetry of the order. -/
def checkIrreflexive (elements : List α) : List String :=
  elements.flatMap fun a =>
    violation (!L.below a a) ("is_descendant not strict: " ++ text a ++ " below itself")
    ++ violation (!L.above a a) ("is_ancestor not strict: " ++ text a ++ " above itself")
    ++ elements.flatMap fun b =>
      violation (L.below a b == L.above b a)
        (application "is_descendant" (text a) (text b) ++ " disagrees with "
          ++ application "is_ancestor" (text b) (text a))
      ++ violation (!(L.below a b && L.below b a))
        ("order not antisymmetric: " ++ text a ++ " and " ++ text b)

/-- Agreement of the covers with the order and with each other. -/
def checkCovers (elements : List α) : List String :=
  elements.flatMap fun a =>
    ((L.successors a).flatMap fun up =>
      violation (L.below a up) ("successor " ++ text up ++ " of " ++ text a ++ " is not above it")
      ++ violation (decide (a ∈ L.predecessors up))
        (text a ++ " missing from predecessors of its successor " ++ text up))
    ++ (L.predecessors a).flatMap fun down =>
      violation (L.below down a)
        ("predecessor " ++ text down ++ " of " ++ text a ++ " is not below it")

/-- The violations of one family of laws. -/
def check (elements : List α) : LawFamily → List String
  | .join => checkOperation text "join" L.join elements
  | .meet => checkOperation text "meet" L.meet elements
  | .absorption => checkAbsorption L text elements
  | .ordering => checkOrdering L text elements
  | .bounds => checkBounds L text elements
  | .irreflexive => checkIrreflexive L text elements
  | .covers => checkCovers L text elements

/-- The elements together with the bounds of the lattice. -/
def withBounds (elements : List α) : List α :=
  let lower := if L.bottom ∈ elements then elements else elements ++ [L.bottom]
  if L.top ∈ lower then lower else lower ++ [L.top]

/-- The violations of every family, on the elements and the bounds. -/
def checkAll (elements : List α) : List String :=
  [LawFamily.join, .meet, .absorption, .ordering, .bounds, .irreflexive, .covers].flatMap
    (check L text (withBounds L elements))

end

/-- Sentences with their numbers, one to a line. -/
def numbered : Nat → List String → String
  | _, [] => ""
  | n, sentence :: rest => "  " ++ toString n ++ ". " ++ sentence ++ "\n" ++ numbered (n + 1) rest

/-- The report of violations; there is none without a violation. -/
def report? (violations : List String) : Option String :=
  if violations.isEmpty then none
  else some (toString violations.length ++ " lattice law violation(s):\n" ++ numbered 1 violations)

end Dataflow.ValueLattice
