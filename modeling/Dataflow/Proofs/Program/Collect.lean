import Dataflow.Program
import Mathlib.Data.List.Nodup

/-!
# Collecting definitions

The definitions of a text become functions one after the other. A definition offends when it has the name
of one before it or, failing that, when one of its parameters has the name of one before it (`Offends`).
The verdict on a definition is `offence?`, which is right as long as no definition before it offends
(`offence?_eq_some_iff`, `offence?_eq_none_iff`). So collecting fails for the first definition that
offends (`collect_eq_error_iff`), and where none does it gives all functions in order
(`collect_eq_ok_iff`).
-/

set_option autoImplicit false

namespace Dataflow.Program

/-! ## Repeated names in a list -/

theorem forall_not_mem_cons_iff {name : String} {names earlier : List String} :
    (∀ other ∈ names, other ∉ name :: earlier) ↔ name ∉ names ∧ ∀ other ∈ names, other ∉ earlier := by
  constructor
  · intro others
    exact ⟨fun member => others name member List.mem_cons_self,
      fun other member listed => others other member (List.mem_cons_of_mem _ listed)⟩
  · rintro ⟨once, others⟩ other member (_ | ⟨_, listed⟩)
    · exact once member
    · exact others other member listed

theorem firstRepeated?_eq_none_iff {earlier names : List String} :
    firstRepeated? earlier names = none ↔ names.Nodup ∧ ∀ name ∈ names, name ∉ earlier := by
  induction names generalizing earlier with
  | nil => simp [firstRepeated?]
  | cons name rest ih =>
    rw [firstRepeated?]
    split
    · next repeated => simp [repeated]
    · next fresh =>
      rw [ih, forall_not_mem_cons_iff, List.nodup_cons, List.forall_mem_cons]
      constructor
      · rintro ⟨distinct, once, others⟩
        exact ⟨⟨once, distinct⟩, fresh, others⟩
      · rintro ⟨⟨once, distinct⟩, -, others⟩
        exact ⟨distinct, once, others⟩

/-- **The first repeated name comes after different names and is one of them**, or one of the earlier
ones. -/
theorem firstRepeated?_eq_some_iff {earlier names : List String} {name : String} :
    firstRepeated? earlier names = some name ↔ ∃ before after, names = before ++ name :: after ∧
      before.Nodup ∧ (∀ other ∈ before, other ∉ earlier) ∧ (name ∈ before ∨ name ∈ earlier) := by
  induction names generalizing earlier with
  | nil => simp [firstRepeated?]
  | cons head rest ih =>
    rw [firstRepeated?]
    split
    · next repeated =>
      constructor
      · intro same
        cases same
        exact ⟨[], rest, rfl, .nil, by simp, Or.inr repeated⟩
      · rintro ⟨_ | ⟨first, before⟩, after, same, -, others, -⟩
        · rw [(List.cons.inj same).1]
        · rw [(List.cons.inj same).1] at repeated
          exact absurd repeated (others first List.mem_cons_self)
    · next fresh =>
      -- The head moves from the names to the earlier ones, and a repeated name is in one of the two.
      have moves : ∀ before, name ∈ before ∨ name ∈ head :: earlier ↔
          name ∈ head :: before ∨ name ∈ earlier := by
        intro before
        rw [List.mem_cons, List.mem_cons, or_left_comm, or_assoc]
      rw [ih]
      constructor
      · rintro ⟨before, after, rfl, distinct, others, again⟩
        obtain ⟨once, others⟩ := forall_not_mem_cons_iff.mp others
        exact ⟨head :: before, after, rfl, List.nodup_cons.mpr ⟨once, distinct⟩,
          List.forall_mem_cons.mpr ⟨fresh, others⟩, (moves before).mp again⟩
      · rintro ⟨_ | ⟨first, before⟩, after, same, distinct, others, again⟩
        · -- A name without names before it is repeated only if it is one of the earlier ones.
          cases same
          exact absurd (again.resolve_left List.not_mem_nil) fresh
        · cases same
          obtain ⟨once, distinct⟩ := List.nodup_cons.mp distinct
          exact ⟨before, after, rfl, distinct,
            forall_not_mem_cons_iff.mpr ⟨once, (List.forall_mem_cons.mp others).2⟩, (moves before).mpr again⟩

/-! ## Definitions that offend -/

/-- No two definitions have one name, and none has two parameters of one name. -/
structure Distinct (definitions : List Definition) : Prop where
  names : (definitions.map (·.name)).Nodup
  parameters : ∀ d ∈ definitions, d.parameters.Nodup

/-- A definition cannot stand after the ones before it, for a reason. -/
inductive Offends (before : List Definition) (d : Definition) : ParseError → Prop
  /-- It has the name of a definition before it. -/
  | function {earlier : Definition} : earlier ∈ before → earlier.name = d.name →
      Offends before d (.duplicateFunction d.name d.line earlier.line)
  /-- Its name is new, and `name` is the first of its parameters that is one of those before it. -/
  | parameter {ps qs : List String} {name : String} : (∀ earlier ∈ before, earlier.name ≠ d.name) →
      d.parameters = ps ++ name :: qs → ps.Nodup → name ∈ ps →
      Offends before d (.duplicateParameter d.name name)

variable {before rest : List Definition} {d : Definition} {cause : ParseError} {text : List Char}

theorem Distinct.of_append (distinct : Distinct (before ++ rest)) : Distinct before := by
  obtain ⟨names, parameters⟩ := distinct
  rw [List.map_append] at names
  exact ⟨names.of_append_left, fun d listed => parameters d (List.mem_append_left _ listed)⟩

theorem distinct_concat_iff : Distinct (before ++ [d]) ↔
    Distinct before ∧ (∀ earlier ∈ before, earlier.name ≠ d.name) ∧ d.parameters.Nodup := by
  have names : ((before ++ [d]).map (·.name)).Nodup ↔
      (before.map (·.name)).Nodup ∧ ∀ earlier ∈ before, earlier.name ≠ d.name := by
    simp [List.nodup_append]
  constructor
  · intro distinct
    exact ⟨distinct.of_append, (names.mp distinct.names).2, distinct.parameters d (by simp)⟩
  · rintro ⟨distinct, new, own⟩
    refine ⟨names.mpr ⟨distinct.names, new⟩, fun e listed => ?_⟩
    rcases List.mem_append.mp listed with earlier | last
    · exact distinct.parameters e earlier
    · rwa [List.mem_singleton.mp last]

/-- What is remembered of definitions: their names and lines, the last one first. -/
def remembered (before : List Definition) : List (String × Nat) :=
  (before.map fun d => (d.name, d.line)).reverse

theorem remembered_concat (before : List Definition) (d : Definition) :
    remembered (before ++ [d]) = (d.name, d.line) :: remembered before := by
  simp [remembered]

theorem lookup_remembered_eq_none_iff {name : String} :
    (remembered before).lookup name = none ↔ ∀ earlier ∈ before, earlier.name ≠ name := by
  simp only [remembered, List.lookup_eq_none_iff, List.mem_reverse, List.mem_map, forall_exists_index,
    and_imp, forall_apply_eq_imp_iff₂, bne_iff_ne]
  exact forall₂_congr fun _ _ => ne_comm

theorem lookup_remembered_eq_some_iff (distinct : Distinct before) {name : String} {line : Nat} :
    (remembered before).lookup name = some line ↔
      ∃ earlier ∈ before, earlier.name = name ∧ earlier.line = line := by
  have found : ∀ {line}, (remembered before).lookup name = some line →
      ∃ earlier ∈ before, earlier.name = name ∧ earlier.line = line := by
    intro line known
    obtain ⟨_, _, split, -⟩ := List.lookup_eq_some_iff.mp known
    have listed : (name, line) ∈ remembered before := by simp [split]
    simpa [remembered] using listed
  refine ⟨found, ?_⟩
  rintro ⟨earlier, listed, rfl, rfl⟩
  cases known : (remembered before).lookup earlier.name with
  | none => exact absurd rfl (lookup_remembered_eq_none_iff.mp known earlier listed)
  | some line =>
    -- The name is remembered for one definition only.
    obtain ⟨other, listed', name, rfl⟩ := found known
    rw [List.inj_on_of_nodup_map distinct.names listed' listed name]

/-- Why a definition cannot stand after the remembered ones. -/
def offence? (earlier : List (String × Nat)) (d : Definition) : Option ParseError :=
  match earlier.lookup d.name with
  | some previous => some (.duplicateFunction d.name d.line previous)
  | none => (firstRepeated? [] d.parameters).map (.duplicateParameter d.name)

/-- **The verdict names the offence.** -/
theorem offence?_eq_some_iff (distinct : Distinct before) :
    offence? (remembered before) d = some cause ↔ Offends before d cause := by
  rw [offence?]
  cases known : (remembered before).lookup d.name with
  | some previous =>
    obtain ⟨earlier, listed, name, rfl⟩ := (lookup_remembered_eq_some_iff distinct).mp known
    constructor
    · intro same
      cases same
      exact .function listed name
    · rintro (⟨listed', name'⟩ | ⟨new, -, -, -⟩)
      · have same := (lookup_remembered_eq_some_iff distinct).mpr ⟨_, listed', name', rfl⟩
        rw [known] at same
        rw [Option.some.inj same]
      · exact absurd name (new earlier listed)
  | none =>
    have new := lookup_remembered_eq_none_iff.mp known
    simp only [Option.map_eq_some_iff, firstRepeated?_eq_some_iff]
    constructor
    · rintro ⟨name, ⟨ps, qs, split, once, -, again⟩, rfl⟩
      exact .parameter new split once (again.resolve_right List.not_mem_nil)
    · rintro (⟨listed, name⟩ | ⟨-, split, once, again⟩)
      · exact absurd name (new _ listed)
      · exact ⟨_, ⟨_, _, split, once, fun _ _ => List.not_mem_nil, Or.inl again⟩, rfl⟩

/-- **The verdict lets exactly the definitions pass that repeat no name.** -/
theorem offence?_eq_none_iff (distinct : Distinct before) :
    offence? (remembered before) d = none ↔ Distinct (before ++ [d]) := by
  rw [distinct_concat_iff, and_iff_right distinct, offence?]
  cases known : (remembered before).lookup d.name with
  | some previous =>
    obtain ⟨earlier, listed, name, -⟩ := (lookup_remembered_eq_some_iff distinct).mp known
    exact iff_of_false (Option.some_ne_none _) fun passes => passes.1 earlier listed name
  | none =>
    rw [and_iff_right (lookup_remembered_eq_none_iff.mp known), Option.map_eq_none_iff,
      firstRepeated?_eq_none_iff, and_iff_left fun _ _ => List.not_mem_nil]

/-! ## Collecting -/

theorem collect_cons (text : List Char) (earlier : List (String × Nat)) (d : Definition)
    (rest : List Definition) :
    collect text earlier (d :: rest) =
      match offence? earlier d with
      | some cause => .error cause
      | none => (collect text ((d.name, d.line) :: earlier) rest).map (toFunction text d :: ·) := by
  rw [collect, offence?]
  cases earlier.lookup d.name with
  | some previous => rfl
  | none =>
    cases firstRepeated? [] d.parameters with
    | some name => rfl
    | none =>
      simp only [Option.map_none]
      cases collect text ((d.name, d.line) :: earlier) rest <;> rfl

/-- What is left is collected exactly when no name is repeated, with a function for each definition. -/
theorem collect_remembered_eq_ok_iff (distinct : Distinct before) {functions : List FunctionDef} :
    collect text (remembered before) rest = .ok functions ↔
      Distinct (before ++ rest) ∧ functions = rest.map (toFunction text) := by
  -- The induction is on the definitions that are left; those before them repeat no name.
  induction rest generalizing before functions with
  | nil =>
    rw [List.append_nil, and_iff_right distinct, collect, Except.ok.injEq]
    exact eq_comm
  | cons d rest ih =>
    have split : before ++ d :: rest = before ++ [d] ++ rest := by simp
    rw [collect_cons, ← remembered_concat, split]
    cases verdict : offence? (remembered before) d with
    | some cause =>
      refine iff_of_false (by simp) ?_
      rintro ⟨all, -⟩
      rw [(offence?_eq_none_iff distinct).mpr all.of_append] at verdict
      cases verdict
    | none =>
      have passes := (offence?_eq_none_iff distinct).mp verdict
      have succeeded : ∀ outcome : Except ParseError (List FunctionDef),
          outcome.map (toFunction text d :: ·) = .ok functions ↔
            ∃ others, outcome = .ok others ∧ toFunction text d :: others = functions := by
        intro outcome
        cases outcome <;> simp [Except.map]
      dsimp only
      rw [succeeded]
      constructor
      · rintro ⟨others, collected, rfl⟩
        obtain ⟨all, rfl⟩ := (ih passes).mp collected
        exact ⟨all, rfl⟩
      · rintro ⟨all, rfl⟩
        exact ⟨_, (ih passes).mpr ⟨all, rfl⟩, rfl⟩

/-- What is left is not collected exactly when some definition of it is the first to offend. -/
theorem collect_remembered_eq_error_iff (distinct : Distinct before) :
    collect text (remembered before) rest = .error cause ↔ ∃ passed d after,
      rest = passed ++ d :: after ∧ Distinct (before ++ passed) ∧ Offends (before ++ passed) d cause := by
  induction rest generalizing before with
  | nil => simp [collect]
  | cons d rest ih =>
    rw [collect_cons, ← remembered_concat]
    cases verdict : offence? (remembered before) d with
    | some reason =>
      constructor
      · intro rejected
        cases rejected
        refine ⟨[], d, rest, rfl, ?_, ?_⟩ <;> rw [List.append_nil]
        · exact distinct
        · exact (offence?_eq_some_iff distinct).mp verdict
      · rintro ⟨_ | ⟨first, passed⟩, e, after, split, all, offends⟩
        · cases split
          rw [List.append_nil, ← offence?_eq_some_iff distinct, verdict] at offends
          rw [Option.some.inj offends]
        · cases split
          rw [List.append_cons] at all
          rw [(offence?_eq_none_iff distinct).mpr all.of_append] at verdict
          cases verdict
    | none =>
      have passes := (offence?_eq_none_iff distinct).mp verdict
      have failed : ∀ outcome : Except ParseError (List FunctionDef),
          outcome.map (toFunction text d :: ·) = .error cause ↔ outcome = .error cause := by
        intro outcome
        cases outcome <;> simp [Except.map]
      dsimp only
      rw [failed, ih passes]
      constructor
      · rintro ⟨passed, e, after, rfl, all, offends⟩
        exact ⟨d :: passed, e, after, rfl, by simpa using all, by simpa using offends⟩
      · rintro ⟨_ | ⟨first, passed⟩, e, after, split, all, offends⟩
        · cases split
          rw [List.append_nil, ← offence?_eq_some_iff distinct, verdict] at offends
          cases offends
        · cases split
          exact ⟨passed, e, after, rfl, by simpa using all, by simpa using offends⟩

theorem distinct_nil : Distinct [] := ⟨.nil, by simp⟩

/-- **Collecting succeeds exactly when no name is repeated**, with a function for each definition. -/
theorem collect_eq_ok_iff {definitions : List Definition} {functions : List FunctionDef} :
    collect text [] definitions = .ok functions ↔
      Distinct definitions ∧ functions = definitions.map (toFunction text) :=
  collect_remembered_eq_ok_iff distinct_nil

/-- **Collecting fails for the first definition that offends.** -/
theorem collect_eq_error_iff {definitions : List Definition} :
    collect text [] definitions = .error cause ↔ ∃ before d after,
      definitions = before ++ d :: after ∧ Distinct before ∧ Offends before d cause :=
  collect_remembered_eq_error_iff distinct_nil

end Dataflow.Program
