import Mathlib
import SchemaCheck.Proofs.Decomposition.Object
import SchemaCheck.Proofs.Merging

/-!
Chains of objects. Their check is the check of one object with all their fields, so it is made up of
the checks of the objects, each on the entries under the names that the object declares.

All of Mathlib is imported for the equations by which runs on closed chains are evaluated.
-/

namespace SchemaCheck

abbrev Fields := List (String × Schema)

def chainOfObjects (objects : List Fields) : List Schema :=
  objects.map fun fields => .step (.object fields)

theorem flatMap_objectFields (objects : List Fields) :
    (chainOfObjects objects).flatMap Schema.objectFields = objects.flatten := by
  rw [chainOfObjects, List.flatMap_map, List.flatten_eq_flatMap]
  rfl

namespace Chain

def classifiedObjects (objects : List Fields) : List (Kind × Schema) :=
  (chainOfObjects objects).map fun step => (.object, step)

theorem map_classifiedObjects (objects : List Fields) :
    (classifiedObjects objects).map (·.2) = chainOfObjects objects := by
  rw [classifiedObjects, List.map_map]
  exact List.map_id _

theorem classify_objects (objects : List Fields) :
    classify (chainOfObjects objects) = .ok (classifiedObjects objects) := by
  apply classify_eq_ok.mpr
  refine ⟨map_classifiedObjects objects, ?_⟩
  intro pair member
  obtain ⟨step, inside, rfl⟩ := List.mem_map.mp member
  obtain ⟨fields, _, rfl⟩ := List.mem_map.mp inside
  rfl

theorem runs_objects {objects : List Fields} (nonempty : objects ≠ []) :
    runs sameKind (classifiedObjects objects) = [classifiedObjects objects] := by
  apply runs_of_isChain
  · intro empty
    rw [classifiedObjects, chainOfObjects, List.map_map] at empty
    exact nonempty (List.map_eq_nil_iff.mp empty)
  · rw [classifiedObjects, List.isChain_map]
    exact List.Pairwise.isChain (List.pairwise_of_forall fun _ _ => beq_self_eq_true Kind.object)

theorem mergeRun_objects {objects : List Fields} (nonempty : objects ≠ []) :
    mergeRun (classifiedObjects objects) = .ok [.step (.object objects.flatten)] := by
  cases objects with
  | nil => exact absurd rfl nonempty
  | cons first rest =>
      cases rest with
      | nil =>
          rw [List.flatten_cons, List.flatten_nil, List.append_nil]
          rfl
      | cons second others =>
          rw [← flatMap_objectFields, ← map_classifiedObjects]
          rfl

theorem merge_objects {objects : List Fields} (nonempty : objects ≠ []) :
    merge (chainOfObjects objects) = .ok [.step (.object objects.flatten)] := by
  refine merge_eq_ok.mpr ⟨_, [_], classify_objects objects, ?_, (List.append_nil _).symm⟩
  rw [runs_objects nonempty]
  exact .cons (mergeRun_objects nonempty) .nil

theorem arrange_objects {objects : List Fields} (nonempty : objects ≠ []) :
    arrange (chainOfObjects objects) = .ok [.step (.object objects.flatten)] := by
  cases objects with
  | nil => exact absurd rfl nonempty
  | cons first rest =>
      cases rest with
      | nil =>
          rw [List.flatten_cons, List.flatten_nil, List.append_nil]
          rfl
      | cons second others =>
          have merged := merge_objects nonempty
          rw [chainOfObjects, List.map_cons, List.map_cons] at merged ⊢
          rw [arrange, merged]
          · rfl
          · intro empty
            cases empty

end Chain

theorem Check.chain_singleton (check : Check) : Check.chain [check] = check := by
  funext value
  change check value >>= Check.chain [] = check value
  cases check value <;> rfl

section Compiled

variable {calls : Calls} {path : Path}

theorem checkOfSteps_objects {objects : List Fields} (nonempty : objects ≠ []) :
    checkOfSteps calls (chainOfObjects objects) path =
      (propertiesOfFields calls objects.flatten path).map (Check.object · path) := by
  rw [checkOfSteps_of_arranged calls path (Chain.arrange_objects nonempty), checksOfSteps,
    checkOfStep_object]
  cases propertiesOfFields calls objects.flatten path with
  | error defect => rfl
  | ok properties =>
      rw [checksOfSteps]
      exact congrArg Except.ok (Check.chain_singleton _)

/-- A composite step by itself is compiled as it stands. -/
theorem compile_step (step : Step) :
    compile calls (.step step) path = checkOfStep calls (.step step) path := by
  have alone : Chain.arrange [.step step] = .ok [.step step] := rfl
  rw [compile_eq, Schema.steps, checkOfSteps_of_arranged calls path alone, checksOfSteps,
    checksOfSteps]
  · cases checkOfStep calls (.step step) path with
    | error defect => rfl
    | ok check => exact congrArg Except.ok (Check.chain_singleton check)
  · simp

theorem compile_object (fields : Fields) :
    compile calls (.step (.object fields)) path =
      (propertiesOfFields calls fields path).map (Check.object · path) := by
  rw [compile_step, checkOfStep_object]

theorem steps_chainOfObjects (objects : List Fields) :
    Schema.steps (.list (chainOfObjects objects)) = chainOfObjects objects := by
  rw [Schema.steps, chainOfObjects, List.flatMap_map]
  exact (List.map_eq_flatMap).symm

theorem ne_nil_of_compiled {schema : Schema} {objects : List Fields} {whole : Check}
    (shape : schema.steps = chainOfObjects objects)
    (compiled : compile calls schema path = .ok whole) :
    objects ≠ [] := by
  intro empty
  subst empty
  rw [compile_eq, shape, checkOfSteps_of_fault calls path rfl] at compiled
  cases compiled

theorem object_of_compiled {schema : Schema} {objects : List Fields} {whole : Check}
    (shape : schema.steps = chainOfObjects objects)
    (compiled : compile calls schema path = .ok whole) :
    ∃ properties, propertiesOfFields calls objects.flatten path = .ok properties ∧
      Check.object properties path = whole := by
  have nonempty := ne_nil_of_compiled shape compiled
  rw [compile_eq, shape, checkOfSteps_objects nonempty] at compiled
  exact map_eq_ok.mp compiled

theorem properties_of_flatten {objects : List Fields} {properties : List Check.Property}
    (compiled : propertiesOfFields calls objects.flatten path = .ok properties) :
    ∃ own : Fields → List Check.Property,
      (∀ fields ∈ objects, propertiesOfFields calls fields path = .ok (own fields)) ∧
        properties = (objects.map own).flatten := by
  have each : ∀ fields ∈ objects, ∃ own, propertiesOfFields calls fields path = .ok own := by
    intro fields inside
    have all := exists_forall₂_iff.mp ⟨properties, propertiesOfFields_eq_ok.mp compiled⟩
    simp only [propertiesOfFields_eq_ok, exists_forall₂_iff]
    intro field member
    exact all field (List.mem_flatten.mpr ⟨fields, inside, member⟩)
  choose! own known using each
  refine ⟨own, known, ?_⟩
  have matched : List.Forall₂ (List.Forall₂ (Check.Property.Compiles calls path)) objects
      (objects.map own) := by
    apply List.forall₂_map_right_iff.mpr
    apply List.forall₂_same.mpr
    intro fields inside
    exact propertiesOfFields_eq_ok.mp (known fields inside)
  have whole := propertiesOfFields_eq_ok.mpr (List.rel_flatten matched)
  exact Except.ok.inj (compiled.symm.trans whole)

theorem names_of_compiled {fields : Fields} {properties : List Check.Property}
    (compiled : propertiesOfFields calls fields path = .ok properties) :
    Check.names properties = fields.map (·.1) := by
  have matched := propertiesOfFields_eq_ok.mp compiled
  clear compiled
  induction matched with
  | nil => rfl
  | cons first _ ih => exact congrArg₂ List.cons first.name ih

theorem missing_of_compiled {fields : Fields} {properties : List Check.Property}
    (compiled : propertiesOfFields calls fields path = .ok properties)
    (entries : List (Value × Value)) :
    Check.missing properties entries = [] ↔ ∀ field ∈ fields, field.2.mayBeAbsent = false →
      (Value.property field.1 entries).isSome = true := by
  have matched := propertiesOfFields_eq_ok.mp compiled
  clear compiled
  rw [Check.missing_eq_nil]
  induction matched with
  | nil => simp
  | cons first _ ih =>
      rw [List.forall_mem_cons, List.forall_mem_cons, first.name, first.required,
        Bool.not_eq_true']
      exact and_congr_right fun _ => ih

end Compiled

section Decomposing

variable (objects : List Fields) (entries : List (Value × Value))

/-- Every key is declared by one of the objects. -/
def AllDeclared : Prop :=
  ∀ entry ∈ entries, ∃ fields ∈ objects, entry.1.isAmong (fields.map (·.1)) = true

/-- No name that one of the objects requires is missing. -/
def AllPresent : Prop :=
  ∀ fields ∈ objects, ∀ field ∈ fields, field.2.mayBeAbsent = false →
    (Value.property field.1 entries).isSome = true

/-- What the check of an object makes of the entries that the object declares. -/
def share (own : Fields → Check) (fields : Fields) : Outcome Value :=
  own fields (.dict (restricted (fields.map (·.1)) entries))

/-- How a check for several objects is made up of their own checks on some entries. -/
structure Decomposes (own : Fields → Check) (whole : Check) : Prop where
  accepts : (∃ output, whole (.dict entries) = .ok output) ↔
    AllDeclared objects entries ∧
      ∀ fields ∈ objects, ∃ output, share entries own fields = .ok output
  output : ∀ outputs, AllDeclared objects entries →
    objects.map (share entries own) = outputs.map .ok →
      ∃ dicts : List (List (Value × Value)), outputs = dicts.map .dict ∧
        whole (.dict entries) = .ok (.dict (dicts.foldl (Entries.updated Value.sameKey) []))
  issues : AllDeclared objects entries → AllPresent objects entries →
    (∃ fields ∈ objects, ∃ found, share entries own fields = .error found) →
      whole (.dict entries) =
        .error (objects.flatMap fun fields => (share entries own fields).issues)

section Parts

variable {objects} {calls : Calls} {path : Path} {properties : List Check.Property}

theorem surplus_of_compiled
    (compiled : propertiesOfFields calls objects.flatten path = .ok properties) :
    Check.surplus properties entries = [] ↔ AllDeclared objects entries := by
  rw [Check.surplus_eq_nil, names_of_compiled compiled, List.map_flatten]
  simp only [Value.isAmong_flatten, List.mem_map, exists_exists_and_eq_and, AllDeclared]

theorem missing_of_flatten
    (compiled : propertiesOfFields calls objects.flatten path = .ok properties) :
    Check.missing properties entries = [] ↔ AllPresent objects entries := by
  rw [missing_of_compiled compiled, List.forall_mem_flatten]
  exact Iff.rfl

theorem map_share {own : Fields → List Check.Property}
    (known : ∀ fields ∈ objects, propertiesOfFields calls fields path = .ok (own fields)) :
    objects.map (share entries fun fields => Check.object (own fields) path) =
      Check.shares (objects.map own) path entries := by
  rw [Check.shares, List.map_map]
  apply List.map_congr_left
  intro fields inside
  rw [share, Function.comp_apply, names_of_compiled (known fields inside)]

end Parts

end Decomposing

/-- Objects in a chain decide together what each decides on its own names. -/
theorem chain_of_objects_decomposes {calls : Calls} {path : Path} {objects : List Fields}
    {whole : Check} (compiled : compile calls (.list (chainOfObjects objects)) path = .ok whole) :
    ∃ own : Fields → Check,
      (∀ fields ∈ objects, compile calls (.step (.object fields)) path = .ok (own fields)) ∧
        ∀ entries, Decomposes objects entries own whole := by
  have shape := steps_chainOfObjects objects
  obtain ⟨properties, flattened, rfl⟩ := object_of_compiled shape compiled
  obtain ⟨own, known, rfl⟩ := properties_of_flatten flattened
  refine ⟨fun fields => Check.object (own fields) path, ?_, ?_⟩
  · intro fields inside
    rw [compile_object, known fields inside]
    rfl
  intro entries
  have shares := map_share entries known
  have declared := surplus_of_compiled entries flattened
  constructor
  · rw [Check.object_accepts_iff, declared, ← shares, List.forall_mem_map]
  · intro outputs all accepted
    rw [shares] at accepted
    exact Check.object_of_accepted (declared.mpr all) accepted
  · intro all none rejected
    have present := (missing_of_flatten entries flattened).mpr none
    obtain ⟨fields, inside, found, rejected⟩ := rejected
    have member : .error found ∈ Check.shares (objects.map own) path entries := by
      rw [← shares, ← rejected]
      exact List.mem_map_of_mem inside
    rw [Check.object_of_rejected present (declared.mpr all) member, ← shares, List.flatMap_map]

def overlapping : List Fields :=
  [[("k", .str "boolean")],
    [("k", .step (.optional (.str "boolean") (.bool false))), ("n", .str "number")]]

theorem overlapping_objects_decompose :
    ∃ whole own, compile (fun _ value => .value value) (.list (chainOfObjects overlapping)) [] =
      .ok whole ∧ (∀ fields ∈ overlapping,
        compile (fun _ value => .value value) (.step (.object fields)) [] = .ok (own fields)) ∧
          ∀ entries, Decomposes overlapping entries own whole := by
  have accepted : (compile (fun _ value => .value value)
      (.list (chainOfObjects overlapping)) []).isOk = true := by cbv
  cases compiled :
    compile (fun _ value => .value value) (.list (chainOfObjects overlapping)) [] with
  | error defect =>
      rw [compiled] at accepted
      cases accepted
  | ok whole =>
      obtain ⟨own, alone, decomposes⟩ := chain_of_objects_decomposes compiled
      exact ⟨whole, own, rfl, alone, decomposes⟩

end SchemaCheck
