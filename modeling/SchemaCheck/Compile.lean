import SchemaCheck.Chain.Size
import SchemaCheck.Check

/-!
Compiling a schema to a check. Everything that can be wrong with a schema is found here, before any
value is seen; places are handed down to the parts, so that defects and issues name the part they
are about.
-/

namespace SchemaCheck

def Fault.at {α : Type} (path : Path) (fault : Fault) : Except Defect α :=
  .error ⟨path, fault⟩

@[simp] theorem Fault.at_ne_ok {α : Type} (path : Path) (fault : Fault) (compiled : α) :
    Fault.at path fault ≠ .ok compiled := by
  intro same
  cases same

/-- What a fallback is worth to the schema it stands in for. -/
def acceptedFallback (inner : Check) (fallback : Value) (path : Path) :
    Except Defect Value :=
  match inner fallback with
  | .ok value => .ok value
  | .error issues => Fault.at path (.fallbackRejected issues)

def branchSegment (position : Nat) : Segment :=
  .name ("Branch " ++ toString position)

def indexSegment (position : Nat) : Segment :=
  .index position

mutual

def compile (calls : Calls) (schema : Schema) (path : Path) : Except Defect Check :=
  checkOfSteps calls schema.steps path
termination_by (sizeOf schema + 2, 3)
decreasing_by
  have bound := Schema.sizeOf_steps_le schema
  simp only [Prod.lex_def]
  omega

/-- Compiles the steps of a chain, none of which is spliced in any more. -/
def checkOfSteps (calls : Calls) (steps : List Schema) (path : Path) :
    Except Defect Check :=
  match _ : Chain.arrange steps with
  | .error fault => Fault.at path fault
  | .ok arranged => do
      let checks ← checksOfSteps calls arranged path
      return Check.chain checks
termination_by (sizeOf steps, 2)
decreasing_by
  have bound := Chain.sizeOf_arrange ‹_›
  simp only [Prod.lex_def]
  omega

def checksOfSteps (calls : Calls) (steps : List Schema) (path : Path) :
    Except Defect (List Check) :=
  match steps with
  | [] => .ok []
  | step :: rest => do
      let check ← checkOfStep calls step path
      let checks ← checksOfSteps calls rest path
      return check :: checks
termination_by (sizeOf steps, 1)
decreasing_by
  all_goals
    simp only [Prod.lex_def, List.cons.sizeOf_spec]
    omega

def checkOfStep (calls : Calls) (step : Schema) (path : Path) : Except Defect Check :=
  match step with
  | .str name =>
      match BasicKind.ofName? name with
      | some kind => .ok (Check.basic kind path)
      | none => Fault.at path (.unknownBasic name)
  | .function callable => .ok (Check.function calls callable path)
  | .step (.predicate test message detail) =>
      if message.isEmpty then Fault.at path .predicateWithoutMessage
      else .ok (Check.predicate calls test message detail path)
  | .step (.optional inner fallback) => do
      let check ← compile calls inner path
      let default ← acceptedFallback check fallback path
      return Check.optional default check
  | .step (.enum options) =>
      match literalOptions options with
      | .error fault => Fault.at path fault
      | .ok literals => .ok (Check.enum options literals path)
  | .step (.object fields) => do
      let properties ← propertiesOfFields calls fields path
      return Check.object properties path
  | .step (.indexed entries) =>
      match _ : entries.items? with
      | some parts => do
          let checks ← checksOfParts calls indexSegment 0 parts path
          return Check.indexed checks path
      | none => Fault.at path (.entriesNotList entries)
  | .step (.oneOf branches) =>
      match _ : branches.items? with
      | some (first :: rest) => do
          let checks ← checksOfParts calls branchSegment 0 (first :: rest) path
          return Check.oneOf checks
      | _ => Fault.at path (.branchesNotList branches)
  | schema => Fault.at path (.unrecognised schema)
termination_by (sizeOf step, 0)
decreasing_by
  · have bound := Schema.sizeOf_value_pos fallback
    simp only [Prod.lex_def, Value.step.sizeOf_spec, Step.optional.sizeOf_spec]
    omega
  · simp only [Prod.lex_def, Value.step.sizeOf_spec, Step.object.sizeOf_spec]
    omega
  · have bound := Value.sizeOf_items ‹_›
    simp only [Prod.lex_def, Value.step.sizeOf_spec, Step.indexed.sizeOf_spec]
    omega
  · have bound := Value.sizeOf_items ‹_›
    simp only [Prod.lex_def, Value.step.sizeOf_spec, Step.oneOf.sizeOf_spec]
    omega

def propertiesOfFields (calls : Calls) (fields : List (String × Schema)) (path : Path) :
    Except Defect (List Check.Property) :=
  match fields with
  | [] => .ok []
  | (name, schema) :: rest => do
      let check ← compile calls schema (path.extended (.name name))
      let properties ← propertiesOfFields calls rest path
      return ⟨name, !schema.mayBeAbsent, check⟩ :: properties
termination_by (sizeOf fields, 0)
decreasing_by
  all_goals
    simp only [Prod.lex_def, List.cons.sizeOf_spec, Prod.mk.sizeOf_spec]
    have bound := sizeOf_pos rest
    omega

/-- Compiles parts that are told apart by their position, the first of which is `position`. -/
def checksOfParts (calls : Calls) (segment : Nat → Segment) (position : Nat)
    (parts : List Schema) (path : Path) : Except Defect (List Check) :=
  match parts with
  | [] => .ok []
  | part :: rest => do
      let check ← compile calls part (path.extended (segment position))
      let checks ← checksOfParts calls segment (position + 1) rest path
      return check :: checks
termination_by (sizeOf parts + 1, 0)
decreasing_by
  all_goals
    simp only [Prod.lex_def, List.cons.sizeOf_spec]
    have bound := sizeOf_pos rest
    omega

end

section Unfolding

variable (calls : Calls) (path : Path)

theorem compile_eq (schema : Schema) :
    compile calls schema path = checkOfSteps calls schema.steps path := by
  rw [compile]

theorem checkOfSteps_of_fault {steps : List Schema} {fault : Fault}
    (refused : Chain.arrange steps = .error fault) :
    checkOfSteps calls steps path = Fault.at path fault := by
  rw [checkOfSteps]
  split
  · rename_i other shape
    rw [refused] at shape
    cases shape
    rfl
  · rename_i arranged shape
    rw [refused] at shape
    cases shape

theorem checkOfSteps_of_arranged {steps arranged : List Schema}
    (success : Chain.arrange steps = .ok arranged) :
    checkOfSteps calls steps path =
      (checksOfSteps calls arranged path).map Check.chain := by
  rw [checkOfSteps]
  split
  · rename_i fault shape
    rw [success] at shape
    cases shape
  · rename_i other shape
    rw [success] at shape
    cases shape
    rfl

theorem checkOfStep_optional (inner : Schema) (fallback : Value) :
    checkOfStep calls (.step (.optional inner fallback)) path =
      compile calls inner path >>= fun check =>
        (acceptedFallback check fallback path).map (Check.optional · check) := by
  rw [checkOfStep]
  rfl

theorem checkOfStep_object (fields : List (String × Schema)) :
    checkOfStep calls (.step (.object fields)) path =
      (propertiesOfFields calls fields path).map (Check.object · path) := by
  rw [checkOfStep]
  rfl

theorem checkOfStep_indexed_of_none {entries : Value} (unlisted : entries.items? = none) :
    checkOfStep calls (.step (.indexed entries)) path =
      Fault.at path (.entriesNotList entries) := by
  rw [checkOfStep]
  split
  · rename_i others shape
    rw [unlisted] at shape
    cases shape
  · rfl

theorem checkOfStep_oneOf_of_empty {branches : Value} (unlisted : branches.items?.getD [] = []) :
    checkOfStep calls (.step (.oneOf branches)) path =
      Fault.at path (.branchesNotList branches) := by
  rw [checkOfStep]
  split
  · rename_i head tail shape
    rw [shape] at unlisted
    cases unlisted
  · rfl

theorem checkOfStep_indexed {entries : Value} {parts : List Schema}
    (listed : entries.items? = some parts) :
    checkOfStep calls (.step (.indexed entries)) path =
      (checksOfParts calls indexSegment 0 parts path).map (Check.indexed · path) := by
  rw [checkOfStep]
  split
  · rename_i others shape
    rw [listed] at shape
    cases shape
    rfl
  · rename_i shape
    rw [listed] at shape
    cases shape

theorem checkOfStep_oneOf {branches : Value} {first : Schema} {rest : List Schema}
    (listed : branches.items? = some (first :: rest)) :
    checkOfStep calls (.step (.oneOf branches)) path =
      (checksOfParts calls branchSegment 0 (first :: rest) path).map Check.oneOf := by
  rw [checkOfStep]
  split
  · rename_i head tail shape
    rw [listed] at shape
    cases shape
    rfl
  · rename_i others
    exact absurd listed (others first rest)

end Unfolding

end SchemaCheck
