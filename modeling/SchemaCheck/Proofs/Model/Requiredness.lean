import SchemaCheck.Proofs.Model.Describing
import SchemaCheck.Proofs.Missing

/-!
Which names are required. A check requires a name if any schema under it may not be absent, where
chains are opened however deep they are nested; a model asks only the last schema under the name,
and opens one chain. So the two agree under the condition stated here, and else they do not.
-/

namespace SchemaCheck

def ReportsMissing (check : Check) (name : String) : Prop :=
  ∀ entries, Value.property name entries = none →
    ∃ names, name ∈ names ∧ check (.dict entries) = Complaint.reject [] (.missing names)

def schemasUnder (name : String) (fields : Fields) : List Schema :=
  (fields.filter fun field => field.1 == name).map (·.2)

section Issues

variable {calls : Calls} {fields : Fields} {properties : List Check.Property}

theorem reportsMissing_iff (compiled : propertiesOfFields calls fields [] = .ok properties)
    {name : String} :
    ReportsMissing (Check.object properties []) name ↔
      ∃ property ∈ properties, property.name = name ∧ property.required = true := by
  constructor
  · intro reports
    rcases reports [] rfl with ⟨names, listed, reported⟩
    rcases (object_eq_missing_iff compiled []).mp reported with ⟨rfl, _⟩
    exact (Check.mem_missing rfl).mp listed
  · intro required entries absent
    have listed := (Check.mem_missing absent).mpr required
    exact ⟨_, listed, Check.object_of_missing [] (List.ne_nil_of_mem listed)⟩

theorem mem_schemasUnder {name : String} {schema : Schema} :
    schema ∈ schemasUnder name fields ↔ ∃ field ∈ fields, field.1 = name ∧ field.2 = schema := by
  simp only [schemasUnder, List.mem_map, List.mem_filter, beq_iff_eq, and_assoc]

theorem exists_required_iff (compiled : propertiesOfFields calls fields [] = .ok properties)
    {name : String} :
    (∃ property ∈ properties, property.name = name ∧ property.required = true) ↔
      ∃ schema ∈ schemasUnder name fields, schema.mayBeAbsent = false := by
  have byFields : (∃ schema ∈ schemasUnder name fields, schema.mayBeAbsent = false) ↔
      ∃ field ∈ fields, field.1 = name ∧ field.2.mayBeAbsent = false := by
    simp only [mem_schemasUnder]
    constructor
    · intro found
      obtain ⟨schema, ⟨field, member, same, rfl⟩, required⟩ := found
      exact ⟨field, member, same, required⟩
    · intro found
      obtain ⟨field, member, same, required⟩ := found
      exact ⟨field.2, ⟨field, member, same, rfl⟩, required⟩
  have matched := propertiesOfFields_eq_ok.mp compiled
  rw [byFields]
  clear byFields compiled
  induction matched with
  | nil => simp
  | cons first _ ih =>
      rw [List.exists_mem_cons_iff, List.exists_mem_cons_iff, first.name, first.required,
        Bool.not_eq_true']
      exact or_congr_right ih

end Issues

/-- A field of a model goes back to the last of the fields of its name. -/
theorem last_of_mem_model {fields : Fields} {described : List (String × Field)}
    (matched : List.Forall₂ Describes fields described) {field : Field}
    (member : field ∈ (Entries.ofNamed described).map (·.2)) :
    ∃ last, (schemasUnder field.name fields).getLast? = some last ∧
      (field.isRequired = true ↔ optionalHead? last = none) := by
  obtain ⟨pair, inside, rfl⟩ := List.mem_map.mp member
  have kept := Entries.getLast_of_mem_ofPairs (fun left right => beq_iff_eq) inside
  have sameKey : ∀ field described, Describes field described →
      (field.1 == pair.1 ↔ described.1 == pair.1) := by
    intro field described describes
    rw [describes.key]
  have under := List.rel_filter (fun field described => sameKey field described) matched
  obtain ⟨source, last, describes⟩ := getLast_of_forall₂ under kept
  refine ⟨source.2, ?_, describes.required⟩
  rw [schemasUnder, List.getLast?_map, describes.name, ← describes.key, last]
  rfl

/-- A model of a chain of objects and the check of that chain agree on whether a name is required
if and only if the last schema under it opens with an optional step just when all of them, opened
fully, do. -/
theorem required_agrees_iff {maker : Maker} {calls : Calls} {name : String} {schema : Schema}
    {objects : List Fields} {model : Model} (lawful : maker.Lawful)
    (shape : schema.steps = chainOfObjects objects)
    (success : describe maker calls name schema = .ok model) :
    ∃ check, compile calls schema [] = .ok check ∧ ∀ field ∈ model.fields,
      ∃ last, (schemasUnder field.name objects.flatten).getLast? = some last ∧
        (field.isRequired = true ↔ optionalHead? last = none) ∧
        (ReportsMissing check field.name ↔
          ∃ schema ∈ schemasUnder field.name objects.flatten, schema.mayBeAbsent = false) ∧
        ((field.isRequired = true ↔ ReportsMissing check field.name) ↔
          ((optionalHead? last).isSome = true ↔
            ∀ schema ∈ schemasUnder field.name objects.flatten, schema.mayBeAbsent = true)) := by
  obtain ⟨check, described, compiled, matched, made⟩ := model_of_objects shape success
  refine ⟨check, compiled, ?_⟩
  intro field member
  obtain ⟨last, under, required⟩ := last_of_mem_model matched (lawful.mem made member)
  obtain ⟨properties, known, rfl⟩ := object_of_compiled shape compiled
  have reports : ReportsMissing (Check.object properties []) field.name ↔
      ∃ schema ∈ schemasUnder field.name objects.flatten, schema.mayBeAbsent = false :=
    (reportsMissing_iff known).trans (exists_required_iff known)
  have everyOne : (∀ schema ∈ schemasUnder field.name objects.flatten,
      schema.mayBeAbsent = true) ↔
        ¬∃ schema ∈ schemasUnder field.name objects.flatten, schema.mayBeAbsent = false := by
    simp
  refine ⟨last, under, required, reports, ?_⟩
  rw [required, reports, everyOne, Option.isSome_iff_ne_none]
  exact not_iff_not.symm

def redeclared : List Fields :=
  [[("k", .str "boolean")], [("k", .step (.optional (.str "boolean") (.bool false)))]]

theorem redeclared_disagrees :
    ∃ model check, describe (.lenient 1 10) (fun _ value => .value value) "M"
      (.list (chainOfObjects redeclared)) =
      .ok model ∧
        compile (fun _ value => .value value) (.list (chainOfObjects redeclared)) [] = .ok check ∧
          ∃ field ∈ model.fields, field.isRequired = false ∧ ReportsMissing check field.name := by
  have described : (describe (.lenient 1 10) (fun _ value => .value value) "M"
      (.list (chainOfObjects redeclared))).map (fun model =>
        model.fields.map fun field => (field.name, field.isRequired)) = .ok [("k", false)] := by
    cbv
  obtain ⟨model, field, success, member, own⟩ := exists_field_of_map described
  obtain ⟨named, optional⟩ := Prod.mk.inj own
  have steps := steps_chainOfObjects redeclared
  obtain ⟨check, compiled, agree⟩ :=
    required_agrees_iff (Maker.lenient_lawful 1 10) steps success
  obtain ⟨_, _, _, reports, _⟩ := agree field member
  refine ⟨model, check, success, compiled, field, member, optional, reports.mpr ?_⟩
  rw [named]
  exact ⟨.str "boolean", List.mem_cons_self, rfl⟩

def nestedOptional : Schema :=
  .step (.object [("k", .list [.list [.step (.optional (.str "boolean") (.bool false))]])])

theorem nestedOptional_disagrees :
    ∃ model check, describe (.lenient 1 10)
      (fun _ value => .value value) "M" nestedOptional = .ok model ∧
      compile (fun _ value => .value value) nestedOptional [] = .ok check ∧
        ∃ field ∈ model.fields, field.isRequired = true ∧ ¬ReportsMissing check field.name := by
  have described :
    (describe (.lenient 1 10) (fun _ value => .value value) "M" nestedOptional).map (fun model =>
      model.fields.map fun field => (field.name, field.isRequired)) = .ok [("k", true)] := by
    cbv
    rw [lastShape]
    cbv
  have accepts : (compile (fun _ value => .value value) nestedOptional []).map (fun check =>
      (check (.dict [])).isOk) = .ok true := by cbv
  obtain ⟨model, field, success, member, own⟩ := exists_field_of_map described
  obtain ⟨_, required⟩ := Prod.mk.inj own
  obtain ⟨check, compiled, accepted⟩ := map_eq_ok.mp accepts
  refine ⟨model, check, success, compiled, field, member, required, ?_⟩
  intro reports
  obtain ⟨names, _, rejected⟩ := reports [] rfl
  rw [rejected] at accepted
  cases accepted

end SchemaCheck
