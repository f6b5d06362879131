import SchemaCheck.Proofs.Model.Describing

/-!
Which schemas have a model. A malformed schema is refused as compiling it is, and any other has a
model if one object is left when its chain is merged, unless the maker refuses one of the models on
the way; nothing that is compiled, merged or filled in again can fail, however deep inside, once the
whole has compiled.
-/

namespace SchemaCheck

/-- Wherever it starts, the run ends with a result, unless the maker refuses what it is handed. -/
def Completes {α : Type} (maker : Maker) (run : Describing α) : Prop :=
  ∀ start, (∃ result finish, run.run start = .ok (result, finish)) ∨
    ∃ name given reason, maker.make name given = .error reason ∧
      run.run start = .error (.refused reason)

namespace Completes

variable {α β : Type} {maker : Maker}

theorem pure (value : α) : Completes maker (Pure.pure value) :=
  fun start => .inl ⟨value, start, rfl⟩

theorem modifyGet (change : Shared → α × Shared) :
    Completes maker (MonadStateOf.modifyGet change) :=
  fun start => .inl ⟨(change start).1, (change start).2, rfl⟩

theorem lift {known : Except ModelError α} (success : ∃ value, known = .ok value) :
    Completes maker (liftM known) := by
  rcases success with ⟨value, rfl⟩
  exact fun start => .inl ⟨value, start, rfl⟩

theorem makeModel (name : String) (given : List Field) :
    Completes maker (makeModel maker name given) := by
  intro start
  cases made : maker.make name given with
  | ok fields =>
      have known : (SchemaCheck.makeModel maker name given).run start =
          .ok (start.model maker name fields) := run_makeModel_eq_ok.mpr ⟨fields, made, rfl⟩
      exact .inl ⟨_, _, known⟩
  | error reason =>
      refine .inr ⟨name, given, reason, made, ?_⟩
      rw [SchemaCheck.makeModel, made]
      rfl

theorem bind {first : Describing α} {next : α → Describing β} (before : Completes maker first)
    (after : ∀ value, Completes maker (next value)) : Completes maker (first >>= next) := by
  intro start
  rw [StateT.run_bind]
  rcases before start with ⟨value, middle, known⟩ | ⟨name, given, reason, refused, failed⟩
  · rw [known]
    exact after value middle
  · rw [failed]
    exact .inr ⟨name, given, reason, refused, rfl⟩

end Completes

section Complete

variable (maker : Maker) (calls : Calls)

/-- The schema can be described, by itself and as that of a field. -/
def Describable (schema : Schema) : Prop :=
  schema.Compiles calls → ∀ name,
    Completes maker (shapeOf maker calls name schema) ∧
      ∀ key, Completes maker (describeField maker calls key name schema)

def DescribableStep (step : Schema) : Prop :=
  step.StepCompiles calls → ∀ name, Completes maker (stepShape maker calls name step)

variable {maker} {calls} {name : String}

theorem completes_lastShape {steps : List Schema}
    (each : ∀ step ∈ steps, Completes maker (stepShape maker calls name step)) (shape : Shape) :
    Completes maker (lastShape maker calls name shape steps) := by
  induction steps generalizing shape with
  | nil =>
      rw [lastShape]
      exact .pure shape
  | cons step rest ih =>
      rcases List.forall_mem_cons.mp each with ⟨own, others⟩
      rw [lastShape]
      exact own.bind fun later => ih others (later.getD shape)

theorem completes_shapesOf {parts : List Schema} {names : Nat → String}
    (each : ∀ part ∈ parts, ∀ name, Completes maker (shapeOf maker calls name part))
    (position : Nat) :
    Completes maker (shapesOf maker calls names position parts) := by
  induction parts generalizing position with
  | nil =>
      rw [shapesOf]
      exact .pure []
  | cons part rest ih =>
      rcases List.forall_mem_cons.mp each with ⟨own, others⟩
      rw [shapesOf]
      apply (own (names position)).bind
      intro shape
      exact (ih others (position + 1)).bind fun shapes => .pure _

theorem completes_describeFields {fields : Fields}
    (each : ∀ field ∈ fields, ∀ key name,
      Completes maker (describeField maker calls key name field.2)) :
    Completes maker (describeFields maker calls name fields) := by
  induction fields with
  | nil =>
      rw [describeFields]
      exact .pure []
  | cons field rest ih =>
      rcases field with ⟨key, schema⟩
      rcases List.forall_mem_cons.mp each with ⟨own, others⟩
      rw [describeFields]
      apply (own key (name ++ Text.capitalized key)).bind
      intro described
      exact (ih others).bind fun more => .pure _

theorem completes_modelOf {schema : Schema} {check : Check} {merged : List Schema} {fields : Fields}
    (compiled : compile calls schema [] = .ok check)
    (merging : Chain.merge schema.steps = .ok merged)
    (sole : soleObject merged = some fields)
    (each : ∀ field ∈ fields, ∀ key name,
      Completes maker (describeField maker calls key name field.2)) :
    Completes maker (modelOf maker calls name schema) := by
  rw [modelOf_of_compiled compiled merging, sole]
  exact (completes_describeFields each).bind fun described => .makeModel _ _

theorem describableStep_of_parts {step : Schema}
    (parts : ∀ part ∈ step.parts, Describable maker calls part) :
      DescribableStep maker calls step := by
  intro compiles name
  cases step with
  | str text =>
      rw [stepShape]
      exact .pure _
  | step composite =>
      cases composite with
      | optional inner fallback =>
          rcases Schema.stepCompiles_optional.mp compiles with ⟨check, _, compiled, _⟩
          rw [stepShape]
          apply (parts inner List.mem_cons_self ⟨check, compiled⟩ name).1.bind
          intro shape
          exact (Completes.modifyGet _).bind fun union => .pure _
      | enum options =>
          rw [stepShape]
          split
          · exact (Completes.modifyGet _).bind fun literal => .pure _
          · exact .pure none
      | object fields =>
          have compiled : ∃ check, compile calls (.step (.object fields)) [] = .ok check := by
            rcases compiles with ⟨check, own⟩
            rw [compile_object, ← checkOfStep_object]
            exact ⟨check, own⟩
          rcases compiled with ⟨check, compiled⟩
          rw [stepShape]
          apply Completes.bind
          · apply completes_modelOf compiled (Chain.merge_singleton rfl) rfl
            intro field member key name
            have own := Schema.stepCompiles_object.mp compiles field member
            exact (parts field.2 (List.mem_map_of_mem member) own name).2 key
          · exact fun model => .pure _
      | indexed entries =>
          rcases Schema.stepCompiles_indexed.mp compiles with ⟨items, listed, each⟩
          rw [Schema.parts_indexed listed] at parts
          rw [stepShape]
          split
          · rename_i others same
            cases same.symm.trans listed
            apply (completes_shapesOf (fun part member name =>
              (parts part member (each part member) name).1) 0).bind
            exact fun shapes => .pure _
          · exact .pure none
      | oneOf branches =>
          rcases Schema.stepCompiles_oneOf.mp compiles with ⟨items, listed, _, each⟩
          rw [Schema.parts_oneOf listed] at parts
          rw [stepShape]
          split
          · rename_i first rest same
            cases same.symm.trans listed
            apply (completes_shapesOf (fun part member name =>
              (parts part member (each part member) name).1) 0).bind
            intro shapes
            exact (Completes.modifyGet _).bind fun union => .pure _
          · exact .pure none
      | predicate test message detail =>
          rw [stepShape]
          · exact .pure none
          all_goals simp
  | _ =>
      rw [stepShape]
      · exact .pure none
      all_goals simp

theorem describable_of_steps {schema : Schema}
    (each : ∀ arranged, Chain.arrange schema.steps = .ok arranged →
      ∀ step ∈ arranged, DescribableStep maker calls step) : Describable maker calls schema := by
  intro compiles name
  rcases compiles with ⟨check, compiled⟩
  rcases merge_of_compiled compiled with ⟨merged, checks, arranging, merging, matched, _⟩
  have steps : ∀ step ∈ merged, Completes maker (stepShape maker calls name step) := by
    intro step member
    have own := exists_forall₂_iff.mp ⟨checks, matched⟩ step member
    exact each merged arranging step member own name
  have whole : Completes maker (shapeOf maker calls name schema) := by
    rw [shapeOf_eq_lastShape merging]
    exact completes_lastShape steps .any
  refine ⟨whole, ?_⟩
  intro key
  cases opening : optionalHead? schema with
  | none =>
      rw [describeField_of_plain opening]
      exact whole.bind fun shape => .pure _
  | some head =>
      -- The optional step opens the merged chain, so it compiles and its fallback is accepted.
      rcases head with ⟨inner, fallback⟩
      rcases steps_of_optionalHead opening with ⟨rest, shape⟩
      rw [shape] at arranging
      rcases arrange_optional_then arranging with ⟨later, rfl, _⟩
      have own := exists_forall₂_iff.mp ⟨checks, matched⟩ _ List.mem_cons_self
      rcases Schema.stepCompiles_optional.mp own with ⟨inside, value, compiledInner, accepted⟩
      have known : defaultOf calls inner fallback = .ok value :=
        defaultOf_eq_ok.mpr ⟨inside, compiledInner, accepted⟩
      rw [describeField_of_optionalHead opening]
      apply (Completes.lift ⟨value, known⟩).bind
      intro default
      exact (steps _ List.mem_cons_self).bind fun shape? => .pure _

theorem describable (schema : Schema) : Describable maker calls schema := by
  have both := Schema.induction (P := Describable maker calls)
      (Q := DescribableStep maker calls) ?_ ?_
  · exact both.1 schema
  · exact fun schema _ arrangedSteps => describable_of_steps arrangedSteps
  · exact fun step parts => describableStep_of_parts parts

end Complete

def Schema.isObject : Schema → Bool
  | .step (.object _) => true
  | _ => false

theorem length_objects (steps : List Schema) :
    (steps.filterMap soleObject.fields?).length = steps.countP Schema.isObject := by
  rw [List.length_filterMap_eq_countP]
  congr 1
  funext step
  cases step with
  | step composite => cases composite <;> rfl
  | _ => rfl

theorem soleObject_isSome_iff {steps : List Schema} :
    (∃ fields, soleObject steps = some fields) ↔ steps.countP Schema.isObject = 1 := by
  rw [← length_objects, soleObject, List.length_eq_one_iff]
  constructor
  · intro sole
    split at sole
    · rename_i fields only
      exact ⟨fields, only⟩
    · rcases sole with ⟨fields, impossible⟩
      cases impossible
  · intro only
    rcases only with ⟨fields, only⟩
    exact ⟨fields, by rw [only]⟩

/-- A malformed schema is refused with its own defect; any other is refused, as no object, if the
number of objects among its merged steps is not one, and in every other case has a model, unless the
maker refuses what it is handed. -/
theorem describe_fails_exactly (maker : Maker) (calls : Calls) (name : String) (schema : Schema) :
    match compile calls schema [] with
    | .error defect => describe maker calls name schema = .error (.malformed defect)
    | .ok _ => ∃ merged, Chain.merge schema.steps = .ok merged ∧
        ((∀ schemas, schema ≠ .list schemas) → merged = [schema]) ∧
          (describe maker calls name schema = .error .notObject ↔
            merged.countP Schema.isObject ≠ 1) ∧
          (merged.countP Schema.isObject = 1 →
            (∃ model, describe maker calls name schema = .ok model) ∨
              ∃ own given reason, maker.make own given = .error reason ∧
                describe maker calls name schema = .error (.refused reason)) := by
  split
  · rename_i defect refused
    rw [describe, modelOf, refused]
    rfl
  · rename_i check compiled
    rcases merge_of_compiled compiled with ⟨merged, checks, arranging, merging, matched, _⟩
    have model : merged.countP Schema.isObject = 1 →
        (∃ model, describe maker calls name schema = .ok model) ∨
          ∃ own given reason, maker.make own given = .error reason ∧
            describe maker calls name schema = .error (.refused reason) := by
      intro one
      rcases soleObject_isSome_iff.mpr one with ⟨fields, sole⟩
      have member := mem_of_soleObject sole
      have own := exists_forall₂_iff.mp ⟨checks, matched⟩ _ member
      have each : ∀ field ∈ fields, ∀ key name,
          Completes maker (describeField maker calls key name field.2) := by
        intro field inside key name
        have compiles := Schema.stepCompiles_object.mp own field inside
        exact (describable field.2 compiles name).2 key
      rw [describe, StateT.run'_eq]
      rcases completes_modelOf compiled merging sole each .start with
        ⟨model, finish, success⟩ | ⟨own, given, reason, refused, failed⟩
      · rw [success]
        exact .inl ⟨model, rfl⟩
      · rw [failed]
        exact .inr ⟨own, given, reason, refused, rfl⟩
    refine ⟨merged, merging, ?_, ?_, model⟩
    · intro plain
      rw [Schema.steps_of_not_list plain] at merging
      exact Chain.eq_singleton_of_merge merging
    constructor
    · intro refused one
      rcases model one with ⟨model, success⟩ | ⟨_, _, _, _, failed⟩
      · cases refused.symm.trans success
      · cases refused.symm.trans failed
    · intro several
      have none : soleObject merged = none := by
        cases sole : soleObject merged with
        | none => rfl
        | some fields => exact absurd (soleObject_isSome_iff.mp ⟨fields, sole⟩) several
      rw [describe, modelOf_of_compiled compiled merging, none]
      rfl

end SchemaCheck
