import SchemaCheck.Compile
import SchemaCheck.Entries
import SchemaCheck.Model.Shared
import SchemaCheck.Text.Uppercase

/-!
The model that an object schema describes. The schema is compiled first, so a malformed one is
refused as it is elsewhere; predicates and functions, which say nothing about shape, leave no trace.
The fields are handed to a maker, which may refuse them.
-/

namespace SchemaCheck

inductive ModelError
  | malformed (defect : Defect)
  | rejected (issues : List Issue)
  | notObject
  | refused (reason : String)

def ModelError.report (limit : Option Nat) : ModelError → String
  | malformed defect => defect.report limit
  | rejected issues => failureReport limit issues
  | notObject => "Schema must be an Object"
  | refused reason => reason

/-- The fields of the only object among some steps. -/
def soleObject (steps : List Schema) : Option (List (String × Schema)) :=
  match steps.filterMap fields? with
  | [fields] => some fields
  | _ => none
where
  fields? : Schema → Option (List (String × Schema))
    | .step (.object fields) => some fields
    | _ => none

def mergedSteps (schema : Schema) : Except ModelError (List Schema) :=
  match Chain.merge schema.steps with
  | .ok merged => .ok merged
  | .error fault => .error (.malformed ⟨[], fault⟩)

/-- The inner schema and the fallback of a schema that is or opens with an optional step. -/
def optionalHead? : Schema → Option (Schema × Value)
  | .step (.optional inner fallback) => some (inner, fallback)
  | .list (.step (.optional inner fallback) :: _) => some (inner, fallback)
  | _ => none

/-- The fallback as the inner schema accepts it. -/
def defaultOf (calls : Calls) (inner : Schema) (fallback : Value) : Except ModelError Value :=
  match compile calls inner [] with
  | .error defect => .error (.malformed defect)
  | .ok check =>
      match check fallback with
      | .error issues => .error (.rejected issues)
      | .ok value => .ok value

def BasicKind.shape? : BasicKind → Option Shape
  | array => some (.list .any)
  | boolean => some .boolean
  | number => some .number
  | integer => some .integer
  | string => some .string
  | nonEmpty => none

def branchName (name : String) (position : Nat) : String :=
  name ++ "Branch" ++ toString position

theorem mem_of_soleObject {steps : List Schema} {fields : List (String × Schema)}
    (sole : soleObject steps = some fields) : .step (.object fields) ∈ steps := by
  have present : fields ∈ steps.filterMap soleObject.fields? := by
    unfold soleObject at sole
    split at sole
    · rename_i only shape
      cases sole
      rw [shape]
      exact List.mem_singleton.mpr rfl
    · cases sole
  obtain ⟨step, member, isObject⟩ := List.mem_filterMap.mp present
  unfold soleObject.fields? at isObject
  split at isObject
  · cases isObject
    exact member
  · cases isObject

theorem sizeOf_soleObject {steps : List Schema} {fields : List (String × Schema)}
    (sole : soleObject steps = some fields) : sizeOf fields + 4 ≤ sizeOf steps := by
  have inside := sizeOf_member (mem_of_soleObject sole)
  simp only [Value.step.sizeOf_spec, Step.object.sizeOf_spec] at inside
  omega

theorem sizeOf_mergedSteps {schema : Schema} {merged : List Schema}
    (success : mergedSteps schema = .ok merged) : sizeOf merged ≤ sizeOf schema + 2 := by
  unfold mergedSteps at success
  split at success
  · rename_i steps merging
    cases success
    exact Nat.le_trans (Chain.sizeOf_merge merging) (Schema.sizeOf_steps_le schema)
  · cases success

theorem sizeOf_optionalHead {schema inner : Schema} {fallback : Value}
    (head : optionalHead? schema = some (inner, fallback)) : sizeOf inner < sizeOf schema := by
  unfold optionalHead? at head
  split at head
  · cases head
    simp only [Value.step.sizeOf_spec, Step.optional.sizeOf_spec]
    omega
  · cases head
    simp only [Value.list.sizeOf_spec, List.cons.sizeOf_spec, Value.step.sizeOf_spec,
      Step.optional.sizeOf_spec]
    omega
  · cases head

/-- Describing keeps the shapes it has made. -/
abbrev Describing := StateT Shared (Except ModelError)

def makeModel (maker : Maker) (name : String) (given : List Field) : Describing Model :=
  match maker.make name given with
  | .error reason => throw (.refused reason)
  | .ok fields => modifyGet (Shared.model maker name fields)

mutual

def modelOf (maker : Maker) (calls : Calls) (name : String) (schema : Schema) : Describing Model :=
  match compile calls schema [] with
  | .error defect => throw (.malformed defect)
  | .ok _ =>
      match _ : mergedSteps schema with
      | .error error => throw error
      | .ok merged =>
          match _ : soleObject merged with
          | none => throw .notObject
          | some fields => do
              let described ← describeFields maker calls name fields
              makeModel maker name ((Entries.ofNamed described).map (·.2))
termination_by (sizeOf schema, 0)
decreasing_by
  have outer := sizeOf_mergedSteps ‹_›
  have inner := sizeOf_soleObject ‹_›
  simp only [Prod.lex_def]
  omega

def describeFields (maker : Maker) (calls : Calls) (name : String)
    (fields : List (String × Schema)) :
    Describing (List (String × Field)) :=
  match fields with
  | [] => return []
  | (key, schema) :: rest => do
      let field ← describeField maker calls key (name ++ Text.capitalized key) schema
      let others ← describeFields maker calls name rest
      return (key, field) :: others
termination_by (sizeOf fields, 0)
decreasing_by
  all_goals
    simp only [Prod.lex_def, List.cons.sizeOf_spec, Prod.mk.sizeOf_spec]
    have bound := sizeOf_pos rest
    omega

/-- A field whose schema is or opens with an optional step has a default. -/
def describeField (maker : Maker) (calls : Calls) (key name : String) (schema : Schema) :
    Describing Field :=
  match _ : optionalHead? schema with
  | some (inner, fallback) => do
      let default ← defaultOf calls inner fallback
      let shape ← shapeOf maker calls name inner
      return ⟨key, ← modifyGet (Shared.orNull shape), some default⟩
  | none => do
      let shape ← shapeOf maker calls name schema
      return ⟨key, shape, none⟩
termination_by (sizeOf schema + 2, 3)
decreasing_by
  · have bound := sizeOf_optionalHead ‹_›
    simp only [Prod.lex_def]
    omega
  · exact Prod.Lex.right _ (by decide)

/-- The shape that a schema guarantees: that of the last step of a chain which guarantees one. -/
def shapeOf (maker : Maker) (calls : Calls) (name : String) (schema : Schema) : Describing Shape :=
  match schema with
  | .list schemas =>
      match _ : mergedSteps (.list schemas) with
      | .error error => throw error
      | .ok merged => lastShape maker calls name .any merged
  | schema => do
      let shape ← stepShape maker calls name schema
      return shape.getD .any
termination_by (sizeOf schema + 2, 2)
decreasing_by
  · have bound := sizeOf_mergedSteps ‹_›
    simp only [Prod.lex_def]
    omega
  · simp only [Prod.lex_def]
    omega

def lastShape (maker : Maker) (calls : Calls) (name : String) (shape : Shape)
    (steps : List Schema) :
    Describing Shape :=
  match steps with
  | [] => return shape
  | step :: rest => do
      let later ← stepShape maker calls name step
      lastShape maker calls name (later.getD shape) rest
termination_by (sizeOf steps, 1)
decreasing_by
  all_goals
    simp only [Prod.lex_def, List.cons.sizeOf_spec]
    omega

def stepShape (maker : Maker) (calls : Calls) (name : String) (step : Schema) :
    Describing (Option Shape) :=
  match step with
  | .str text => return (BasicKind.ofName? text).bind BasicKind.shape?
  | .step (.optional inner _) => do
      let shape ← shapeOf maker calls name inner
      return some (← modifyGet (Shared.orNull shape))
  | .step (.enum options) =>
      match options.items? with
      | some (first :: rest) => return some (← modifyGet (Shared.literal (first :: rest)))
      | _ => return none
  | .step (.object fields) => do
      let model ← modelOf maker calls name (.step (.object fields))
      return some (.model model)
  | .step (.indexed entries) =>
      match _ : entries.items? with
      | some parts => do
          let shapes ← shapesOf maker calls (fun _ => name) 0 parts
          return some (.tuple shapes)
      | none => return none
  | .step (.oneOf branches) =>
      match _ : branches.items? with
      | some (first :: rest) => do
          let shapes ← shapesOf maker calls (branchName name) 0 (first :: rest)
          return some (← modifyGet (Shared.union shapes))
      | _ => return none
  | _ => return none
termination_by (sizeOf step, 1)
decreasing_by
  · have bound := Schema.sizeOf_value_pos ‹_›
    simp only [Prod.lex_def, Value.step.sizeOf_spec, Step.optional.sizeOf_spec]
    omega
  · exact Prod.Lex.right _ (by decide)
  · have bound := Value.sizeOf_items ‹_›
    simp only [Prod.lex_def, Value.step.sizeOf_spec, Step.indexed.sizeOf_spec]
    omega
  · have bound := Value.sizeOf_items ‹_›
    simp only [Prod.lex_def, Value.step.sizeOf_spec, Step.oneOf.sizeOf_spec]
    omega

/-- The shapes of parts, of which each may go by a name of its own. -/
def shapesOf (maker : Maker) (calls : Calls) (name : Nat → String) (position : Nat)
    (parts : List Schema) :
    Describing (List Shape) :=
  match parts with
  | [] => return []
  | part :: rest => do
      let shape ← shapeOf maker calls (name position) part
      let shapes ← shapesOf maker calls name (position + 1) rest
      return shape :: shapes
termination_by (sizeOf parts + 1, 0)
decreasing_by
  all_goals
    simp only [Prod.lex_def, List.cons.sizeOf_spec]
    have bound := sizeOf_pos rest
    omega

end

/-- The model of an object schema, under a name. -/
def describe (maker : Maker) (calls : Calls) (name : String) (schema : Schema) :
    Except ModelError Model :=
  (modelOf maker calls name schema).run' Shared.start

end SchemaCheck
