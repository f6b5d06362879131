import SchemaCheck.Model.Describe
import SchemaCheck.Proofs.Decomposition
import SchemaCheck.Proofs.Sequencing
import SchemaCheck.Proofs.WellFormed

/-!
How describing runs. A schema that compiles is described by its merged chain: its shape is that of
the steps there, a field that opens with an optional step has a default, and the model of a chain of
objects has its fields described one after the other, of which the last under each name is kept.
-/

namespace SchemaCheck

section Running

variable {α β : Type} {start finish : Shared}

theorem run_bind_eq_ok {first : Describing α} {next : α → Describing β} {result : β} :
    (first >>= next).run start = .ok (result, finish) ↔
      ∃ value middle, first.run start = .ok (value, middle) ∧
        (next value).run middle = .ok (result, finish) := by
  rw [StateT.run_bind, bind_eq_ok]
  exact Prod.exists

theorem run_pure_eq_ok {value result : α} :
    (pure value : Describing α).run start = .ok (result, finish) ↔
      value = result ∧ start = finish := by
  change Except.ok (value, start) = .ok (result, finish) ↔ _
  rw [Except.ok.injEq, Prod.mk.injEq]

theorem run_lift_eq_ok {known : Except ModelError α} {result : α} :
    (liftM known : Describing α).run start = .ok (result, finish) ↔
      known = .ok result ∧ start = finish := by
  cases known with
  | error error =>
      constructor
      · intro success
        cases success
      · intro found
        cases found.1
  | ok value =>
      change Except.ok (value, start) = .ok (result, finish) ↔ _
      rw [Except.ok.injEq, Except.ok.injEq, Prod.mk.injEq]

theorem run_modifyGet_eq_ok {change : Shared → α × Shared} {result : α} :
    (modifyGet change : Describing α).run start = .ok (result, finish) ↔
      change start = (result, finish) := by
  change Except.ok (change start) = .ok (result, finish) ↔ _
  rw [Except.ok.injEq]

theorem run_makeModel_eq_ok {maker : Maker} {name : String} {given : List Field} {model : Model} :
    (makeModel maker name given).run start = .ok (model, finish) ↔
      ∃ fields, maker.make name given = .ok fields ∧
        start.model maker name fields = (model, finish) := by
  rw [makeModel]
  cases maker.make name given with
  | error reason =>
      constructor
      · intro success
        cases success
      · intro found
        obtain ⟨_, impossible, _⟩ := found
        cases impossible
  | ok fields =>
      simp only [Except.ok.injEq, exists_eq_left']
      exact run_modifyGet_eq_ok

end Running

theorem steps_of_optionalHead {schema inner : Schema} {fallback : Value}
    (head : optionalHead? schema = some (inner, fallback)) :
    ∃ rest, schema.steps = .step (.optional inner fallback) :: rest := by
  unfold optionalHead? at head
  split at head
  · cases head
    exact ⟨[], rfl⟩
  · cases head
    exact ⟨_, rfl⟩
  · cases head

variable {maker : Maker} {calls : Calls} {start finish : Shared}

theorem merge_of_compiled {schema : Schema} {check : Check}
    (compiled : compile calls schema [] = .ok check) :
    ∃ merged checks, Chain.arrange schema.steps = .ok merged ∧
      Chain.merge schema.steps = .ok merged ∧
      List.Forall₂ (fun step check => checkOfStep calls step [] = .ok check) merged checks ∧
        Check.chain checks = check := by
  rw [compile_eq] at compiled
  rcases checkOfSteps_eq_ok.mp compiled with ⟨arranged, checks, arranging, matched, rfl⟩
  refine ⟨arranged, checks, arranging, ?_, matched, rfl⟩
  cases steps : schema.steps with
  | nil =>
      rw [steps] at arranging
      cases arranging
  | cons first rest =>
      rw [steps] at arranging
      have merging := (Chain.arrange_eq_ok.mp arranging).2.2
      by_cases alone : rest = []
      · rw [if_pos alone] at merging
        subst alone merging
        rcases List.forall₂_cons_left_iff.mp matched with ⟨own, _, compiled, _, _⟩
        rcases Schema.kind_of_stepCompiles ⟨own, compiled⟩ with ⟨kind, known⟩
        exact Chain.merge_singleton known
      · rw [if_neg alone] at merging
        exact merging

theorem shapeOf_eq_lastShape {name : String} {schema : Schema} {merged : List Schema}
    (merging : Chain.merge schema.steps = .ok merged) :
    shapeOf maker calls name schema = lastShape maker calls name .any merged := by
  by_cases chain : ∃ schemas, schema = .list schemas
  · rcases chain with ⟨schemas, rfl⟩
    rw [shapeOf]
    split
    · rename_i error refused
      rw [mergedSteps, merging] at refused
      cases refused
    · rename_i steps known
      rw [mergedSteps, merging] at known
      cases known
      rfl
  · have plain : ∀ schemas, schema ≠ .list schemas := fun schemas same => chain ⟨schemas, same⟩
    rw [Schema.steps_of_not_list plain] at merging
    cases Chain.eq_singleton_of_merge merging
    rw [shapeOf, lastShape]
    · simp only [lastShape]
    · exact plain

theorem defaultOf_eq_ok {inner : Schema} {fallback default : Value} :
    defaultOf calls inner fallback = .ok default ↔
      ∃ own, compile calls inner [] = .ok own ∧ own fallback = .ok default := by
  rw [defaultOf]
  cases compile calls inner [] with
  | error defect => simp
  | ok own => cases answer : own fallback <;> simp [answer]

theorem describeField_of_optionalHead {key name : String} {schema inner : Schema} {fallback : Value}
    (head : optionalHead? schema = some (inner, fallback)) :
    describeField maker calls key name schema = do
      let default ← defaultOf calls inner fallback
      let shape? ← stepShape maker calls name (.step (.optional inner fallback))
      return ⟨key, shape?.getD .any, some default⟩ := by
  rw [describeField, stepShape]
  split
  · rename_i known
    cases known.symm.trans head
    simp only [bind_assoc, pure_bind, Option.getD_some]
  · rename_i plain
    cases plain.symm.trans head

theorem describeField_of_plain {key name : String} {schema : Schema}
    (plain : optionalHead? schema = none) :
    describeField maker calls key name schema = do
      let shape ← shapeOf maker calls name schema
      return ⟨key, shape, none⟩ := by
  rw [describeField]
  split
  · rename_i inner fallback head
    cases plain.symm.trans head
  · rfl

theorem modelOf_of_compiled {name : String} {schema : Schema} {check : Check} {merged : List Schema}
    (compiled : compile calls schema [] = .ok check)
    (merging : Chain.merge schema.steps = .ok merged) :
    modelOf maker calls name schema =
      match soleObject merged with
      | none => throw .notObject
      | some fields =>
          describeFields maker calls name fields >>= fun described =>
            makeModel maker name ((Entries.ofNamed described).map (·.2)) := by
  rw [modelOf, compiled]
  dsimp only
  split
  · rename_i refused
    rw [mergedSteps, merging] at refused
    cases refused
  · rename_i steps known
    rw [mergedSteps, merging] at known
    cases known
    split <;> simp_all

/-- How a described field goes back to its schema. -/
structure Describes (field : String × Schema) (described : String × Field) : Prop where
  key : described.1 = field.1
  name : described.2.name = field.1
  required : described.2.isRequired = true ↔ optionalHead? field.2 = none

theorem describes_of_describeField {key name : String} {schema : Schema} {field : Field}
    (success : (describeField maker calls key name schema).run start = .ok (field, finish)) :
    Describes (key, schema) (key, field) := by
  cases opening : optionalHead? schema with
  | none =>
      rw [describeField_of_plain opening] at success
      obtain ⟨shape, _, _, success⟩ := run_bind_eq_ok.mp success
      obtain ⟨rfl, _⟩ := run_pure_eq_ok.mp success
      exact ⟨rfl, rfl, by simp [Field.isRequired, opening]⟩
  | some head =>
      rw [describeField_of_optionalHead opening] at success
      obtain ⟨default, _, _, success⟩ := run_bind_eq_ok.mp success
      obtain ⟨shape?, _, _, success⟩ := run_bind_eq_ok.mp success
      obtain ⟨rfl, _⟩ := run_pure_eq_ok.mp success
      exact ⟨rfl, rfl, by simp [Field.isRequired, opening]⟩

theorem forall₂_of_describeFields {R : String × Schema → String × Field → Prop} {name : String}
    (each : ∀ {key schema field start finish},
      (describeField maker calls key (name ++ Text.capitalized key) schema).run start =
        .ok (field, finish) → R (key, schema) (key, field))
    {fields : Fields} {described : List (String × Field)}
    (success : (describeFields maker calls name fields).run start = .ok (described, finish)) :
    List.Forall₂ R fields described := by
  induction fields generalizing start finish described with
  | nil =>
      rw [describeFields] at success
      obtain ⟨rfl, _⟩ := run_pure_eq_ok.mp success
      exact .nil
  | cons field rest ih =>
      obtain ⟨key, schema⟩ := field
      rw [describeFields] at success
      obtain ⟨first, _, own, success⟩ := run_bind_eq_ok.mp success
      obtain ⟨others, _, later, success⟩ := run_bind_eq_ok.mp success
      obtain ⟨rfl, _⟩ := run_pure_eq_ok.mp success
      exact .cons (each own) (ih later)

theorem run_of_describe {name : String} {schema : Schema} {model : Model}
    (success : describe maker calls name schema = .ok model) :
    ∃ finish, (modelOf maker calls name schema).run .start = .ok (model, finish) := by
  rw [describe, StateT.run'_eq] at success
  obtain ⟨⟨_, finish⟩, known, rfl⟩ := map_eq_ok.mp success
  exact ⟨finish, known⟩

theorem exists_field_of_map {α : Type} {name : String} {schema : Schema} {read : Field → α}
    {found : α} (described : (describe maker calls name schema).map
      (fun model => model.fields.map read) = .ok [found]) :
    ∃ model field, describe maker calls name schema = .ok model ∧ field ∈ model.fields ∧
      read field = found := by
  obtain ⟨model, success, fields⟩ := map_eq_ok.mp described
  obtain ⟨field, only, own⟩ := List.map_eq_singleton_iff.mp fields
  exact ⟨model, field, success, only ▸ List.mem_cons_self, own⟩

/-- A chain of objects compiles if it is described, and its fields are handed to the maker. -/
theorem describeFields_of_modelOf {name : String} {schema : Schema} {objects : List Fields}
    {model : Model} (shape : schema.steps = chainOfObjects objects)
    (success : (modelOf maker calls name schema).run start = .ok (model, finish)) :
    ∃ check described middle, compile calls schema [] = .ok check ∧
      (describeFields maker calls name objects.flatten).run start = .ok (described, middle) ∧
        (makeModel maker name ((Entries.ofNamed described).map (·.2))).run middle =
          .ok (model, finish) := by
  cases compiled : compile calls schema [] with
  | error defect =>
      rw [modelOf, compiled] at success
      cases success
  | ok check =>
      have merging : Chain.merge schema.steps = .ok [.step (.object objects.flatten)] := by
        rw [shape, Chain.merge_objects (ne_nil_of_compiled shape compiled)]
      rw [modelOf_of_compiled compiled merging] at success
      obtain ⟨described, middle, known, success⟩ := run_bind_eq_ok.mp success
      exact ⟨check, described, middle, rfl, known, success⟩

theorem fields_of_makeModel {name : String} {given : List Field} {model : Model}
    (success : (makeModel maker name given).run start = .ok (model, finish)) :
    maker.make name given = .ok model.fields := by
  obtain ⟨fields, made, same⟩ := run_makeModel_eq_ok.mp success
  rw [made, ← congrArg (fun made => made.1.fields) same]
  rfl

/-- A model of a chain of objects is made of what their fields describe, the last under each
name. -/
theorem model_of_objects {name : String} {schema : Schema} {objects : List Fields} {model : Model}
    (shape : schema.steps = chainOfObjects objects)
    (success : describe maker calls name schema = .ok model) :
    ∃ check described, compile calls schema [] = .ok check ∧
      List.Forall₂ Describes objects.flatten described ∧
        maker.make name ((Entries.ofNamed described).map (·.2)) = .ok model.fields := by
  obtain ⟨finish, success⟩ := run_of_describe success
  obtain ⟨check, described, middle, compiled, known, made⟩ :=
    describeFields_of_modelOf shape success
  exact ⟨check, described, compiled, forall₂_of_describeFields describes_of_describeField known,
    fields_of_makeModel made⟩

end SchemaCheck
