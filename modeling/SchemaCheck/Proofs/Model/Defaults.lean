import SchemaCheck.Proofs.Acceptance
import SchemaCheck.Proofs.Model.Requiredness
import SchemaCheck.Proofs.Sequencing

/-!
Defaults. A model takes the fallback of an optional step as its inner schema returns it, while the
check goes on with the steps that come after; so the default is what the check fills in if those
steps return what they accept, and else what they make of it is.
-/

namespace SchemaCheck

section Keeping

variable {calls : Calls} {path : Path}

/-- Merging takes nothing away from steps that return what they accept. -/
theorem checkOfSteps_keeps {steps : List Schema} {check : Check} (keep : ∀ step ∈ steps, step.Keeps)
    (compiled : checkOfSteps calls steps path = .ok check) {value output : Value}
    (accepted : check value = .ok output) : output = value := by
  rcases checkOfSteps_eq_ok.mp compiled with ⟨arranged, checks, arranging, matched, rfl⟩
  apply Check.chain_related (R := fun value output => output = value) (fun _ => rfl) ?_ ?_ accepted
  · intro value between output first later
    exact later.trans first
  intro check member value output
  rcases exists_mem_of_forall₂ matched member with ⟨step, inside, own⟩
  rcases (Chain.comesFrom_of_arrange arranging inside).kind with ⟨source, before, alike⟩
  apply checkOfStep_keeps ?_ own
  rw [Schema.Keeps, ← alike]
  exact keep source before

end Keeping

/-- What a chain that is to be gone on with makes of a value, where no steps leave it as it is. -/
def Resumes (calls : Calls) (steps : List Schema) (value output : Value) : Prop :=
  steps = [] ∧ output = value ∨
    ∃ later, checkOfSteps calls steps [] = .ok later ∧ later value = .ok output

section Filling

variable {maker : Maker} {calls : Calls} {start finish : Shared}

theorem Resumes.eq_of_keeps {steps : List Schema} {value output : Value}
    (resumes : Resumes calls steps value output) (keep : ∀ step ∈ steps, step.Keeps) :
    output = value := by
  rcases resumes with ⟨_, same⟩ | ⟨later, compiled, accepted⟩
  · exact same
  · exact checkOfSteps_keeps keep compiled accepted

structure Defaults (calls : Calls) (field : String × Schema) (described : String × Field) :
    Prop where
  key : field.1 = described.1
  name : described.2.name = field.1
  fallback : ∀ default, described.2.default = some default → ∃ inner fallback,
    optionalHead? field.2 = some (inner, fallback) ∧ defaultOf calls inner fallback = .ok default

theorem defaults_of_describeField {key name : String} {schema : Schema} {field : Field}
    (success : (describeField maker calls key name schema).run start = .ok (field, finish)) :
    Defaults calls (key, schema) (key, field) := by
  cases opening : optionalHead? schema with
  | none =>
      rw [describeField_of_plain opening] at success
      rcases run_bind_eq_ok.mp success with ⟨shape, _, _, success⟩
      rcases run_pure_eq_ok.mp success with ⟨rfl, _⟩
      refine ⟨rfl, rfl, ?_⟩
      intro _ same
      cases same
  | some head =>
      rw [describeField_of_optionalHead opening] at success
      rcases run_bind_eq_ok.mp success with ⟨default, _, known, success⟩
      rcases run_bind_eq_ok.mp success with ⟨shape?, _, _, success⟩
      rcases run_pure_eq_ok.mp success with ⟨rfl, _⟩
      refine ⟨rfl, rfl, ?_⟩
      intro _ same
      cases same
      exact ⟨_, _, opening, (run_lift_eq_ok.mp known).1⟩

theorem resumes_of_accepted {schema inner : Schema} {fallback default output : Value}
    {rest : List Schema} {check : Check}
    (shape : schema.steps = .step (.optional inner fallback) :: rest)
    (known : defaultOf calls inner fallback = .ok default)
    (compiled : compile calls schema [] = .ok check) (accepted : check .null = .ok output) :
    Resumes calls rest default output := by
  rw [compile_eq, shape] at compiled
  rcases optional_then compiled with ⟨own, value, later, inside, same, alone, checks⟩
  have equal : value = default := by
    have known' := defaultOf_eq_ok.mpr ⟨own, inside, same⟩
    exact Except.ok.inj (known'.symm.trans known)
  subst equal
  rw [checks] at accepted
  have passed : later value = .ok output := accepted
  rcases alone with ⟨none, rfl⟩ | compiled
  · exact .inl ⟨none, (Except.ok.inj passed).symm⟩
  · exact .inr ⟨later, compiled, passed⟩

end Filling

/-- What the check fills in under a name that a dict lacks is what the steps after the optional one,
in the last schema under the name, make of the default of the model; it is the default itself if
they return what they accept. -/
theorem default_resumed {maker : Maker} {calls : Calls} {name : String} {fields : Fields}
    {model : Model} (lawful : maker.Lawful)
    (success : describe maker calls name (.step (.object fields)) = .ok model) :
    ∃ check, compile calls (.step (.object fields)) [] = .ok check ∧
      ∀ field ∈ model.fields, ∀ default, field.default = some default →
        ∃ last inner fallback rest, (schemasUnder field.name fields).getLast? = some last ∧
          last.steps = .step (.optional inner fallback) :: rest ∧
          ∀ entries output, Value.property field.name entries = none →
            check (.dict entries) = .ok output →
              ∃ results filled, output = .dict results ∧
                Value.property field.name results = some filled ∧
                Resumes calls rest default filled ∧
                ((∀ step ∈ rest, step.Keeps) → filled = default) := by
  rcases run_of_describe success with ⟨_, running⟩
  have shape : Schema.steps (.step (.object fields)) = chainOfObjects [fields] := rfl
  rcases describeFields_of_modelOf shape running with ⟨check, described, _, compiled, known, made⟩
  rw [List.flatten_singleton] at known
  have matched := forall₂_of_describeFields defaults_of_describeField known
  have sources : List.Forall₂ (Defaults calls) (Entries.ofNamed fields)
      (Entries.ofNamed described) :=
    Entries.ofPairs_forall₂ (fun _ _ => beq_iff_eq) (fun _ _ defaults => defaults.key) matched
  refine ⟨check, compiled, ?_⟩
  intro field member default held
  have handed := lawful.mem (fields_of_makeModel made) member
  rcases List.mem_map.mp handed with ⟨entry, inside, rfl⟩
  rcases exists_mem_of_forall₂ sources inside with ⟨⟨key, schema⟩, source, defaults⟩
  rcases defaults.fallback default held with ⟨inner, fallback, head, accepted⟩
  rcases steps_of_optionalHead head with ⟨rest, steps⟩
  -- Of the schemas under one name both the model and the check take the last.
  have last := Entries.getLast_of_mem_ofPairs (fun _ _ => beq_iff_eq) source
  rw [defaults.name]
  refine ⟨schema, inner, fallback, rest, ?_, steps, ?_⟩
  · rw [schemasUnder, List.getLast?_map, last]
    rfl
  · intro entries output absent passed
    rcases object_of_compiled shape compiled with ⟨properties, propertiesCompiled, rfl⟩
    rcases fills_of_accepted propertiesCompiled passed with ⟨_, pairs, ⟨⟩, _, _, fills, rfl⟩
    rw [List.flatten_singleton] at fills
    rcases property_of_fills fills source with ⟨filled, own, found⟩
    rcases own.accepted with ⟨check, ownCompiled, ownAccepted⟩
    rw [absent] at ownAccepted
    have resumes := resumes_of_accepted steps accepted ownCompiled ownAccepted
    exact ⟨_, filled, rfl, found, resumes, resumes.eq_of_keeps⟩

def guardedDefault : Fields :=
  [("k", .list [.step (.optional (.str "string") (.str "a")),
    .step (.predicate ⟨"short", 0⟩ "long" none)])]

theorem guardedDefault_filled :
    ∃ model check, describe (.lenient 1 10) (fun _ _ => .value (.bool true)) "M"
      (.step (.object guardedDefault)) =
        .ok model ∧
      compile (fun _ _ => .value (.bool true)) (.step (.object guardedDefault)) [] = .ok check ∧
        ∃ field ∈ model.fields, field.default = some (.str "a") ∧
          ∃ results, check (.dict []) = .ok (.dict results) ∧
            Value.property field.name results = some (.str "a") := by
  have described : (describe (.lenient 1 10) (fun _ _ => .value (.bool true)) "M"
      (.step (.object guardedDefault))).map (fun model =>
        model.fields.map fun field => (field.name, field.default)) =
          .ok [("k", some (.str "a"))] := by
    cbv
  have accepts : (compile (fun _ _ => .value (.bool true)) (.step (.object guardedDefault)) []).map
      (fun check => (check (.dict [])).isOk) = .ok true := by
    cbv
  rcases exists_field_of_map described with ⟨model, field, success, member, own⟩
  rcases Prod.mk.inj own with ⟨named, held⟩
  rcases default_resumed (Maker.lenient_lawful 1 10) success with ⟨check, compiled, filled⟩
  rcases filled field member _ held with ⟨last, inner, fallback, rest, under, steps, resumed⟩
  rw [compiled] at accepts
  rcases exists_ok_of_isOk (Except.ok.inj accepts) with ⟨output, accepted⟩
  rcases resumed [] output rfl accepted with ⟨results, value, rfl, found, _, kept⟩
  rw [named] at under
  cases under
  cases steps
  have same : value = .str "a" := by
    apply kept
    intro step member
    rw [List.mem_singleton.mp member]
    exact ⟨.predicate, rfl, rfl⟩
  rw [same] at found
  exact ⟨model, check, success, compiled, field, member, held, results, accepted, found⟩

def exclaiming : Calls := fun _ value =>
  match value with
  | .str text => .outcome (.ok (.str (text ++ "!")))
  | other => .value other

def changedDefault : Fields :=
  [("k", .list [.step (.optional (.str "string") (.str "a")), .function ⟨"exclaim", 0⟩])]

theorem changedDefault_differs :
    ∃ model check, describe (.lenient 1 10) exclaiming "M"
      (.step (.object changedDefault)) = .ok model ∧
      compile exclaiming (.step (.object changedDefault)) [] = .ok check ∧
        ∃ field ∈ model.fields, field.default = some (.str "a") ∧
          ∃ results, check (.dict []) = .ok (.dict results) ∧
            Value.property field.name results = some (.str "a!") := by
  have described :
    (describe (.lenient 1 10) exclaiming "M" (.step (.object changedDefault))).map (fun model =>
      model.fields.map fun field => (field.name, field.default)) =
        .ok [("k", some (.str "a"))] := by
    cbv
  have answers : (compile exclaiming (.step (.object changedDefault)) []).map
      (fun check => check (.dict [])) = .ok (.ok (.dict [(.str "k", .str "a!")])) := by
    cbv
  rcases exists_field_of_map described with ⟨model, field, success, member, own⟩
  rcases Prod.mk.inj own with ⟨named, held⟩
  rcases map_eq_ok.mp answers with ⟨check, compiled, accepted⟩
  refine ⟨model, check, success, compiled, field, member, held, _, accepted, ?_⟩
  rw [named]
  rfl

end SchemaCheck
