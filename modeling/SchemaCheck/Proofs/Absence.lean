import SchemaCheck.Proofs.Bracketing
import SchemaCheck.Proofs.Model.Defaults

/-!
Leaving out what may be absent. Without a name that may be absent, a dict that was accepted is
accepted as far as the other names go; under the absent one every schema goes on from its default,
so the steps after its optional one decide.
-/

namespace SchemaCheck

namespace Value

def without (name : String) (entries : List (Value × Value)) : List (Value × Value) :=
  entries.filter fun entry => !entry.1.isAmong [name]

theorem property_without_self (name : String) (entries : List (Value × Value)) :
    property name (without name entries) = none := by
  cases found : property name (without name entries) with
  | none => rfl
  | some held =>
      have kept := (List.mem_filter.mp (mem_of_property found)).2
      simp [isAmong] at kept

theorem property_without_of_ne {name other : String} (different : other ≠ name)
    (entries : List (Value × Value)) :
    property other (without name entries) = property other entries := by
  induction entries with
  | nil => rfl
  | cons entry rest ih =>
      rcases entry with ⟨key, value⟩
      by_cases removed : key = .str name
      · subst removed
        have dropped : without name ((.str name, value) :: rest) = without name rest := by
          simp [without, isAmong]
        rw [dropped, property, if_neg different.symm]
        exact ih
      · have kept : without name ((key, value) :: rest) = (key, value) :: without name rest := by
          have outside : key.isAmong [name] = false := by
            cases key <;> simp_all [isAmong]
          simp [without, outside]
        rw [kept]
        cases key with
        | str text =>
            rw [property, property, ih]
        | _ => exact ih

end Value

namespace Check

variable {properties : List Property} {entries : List (Value × Value)} {path : Path}

theorem object_accepts :
    (∃ output, object properties path (.dict entries) = .ok output) ↔
      missing properties entries = [] ∧ surplus properties entries = [] ∧
        ∀ property ∈ properties, ∃ value,
          property.check ((Value.property property.name entries).getD .null) = .ok value := by
  have collected : (∃ pairs, Outcome.collect (propertyOutcomes properties entries) = .ok pairs) ↔
      ∀ property ∈ properties, ∃ value,
        property.check ((Value.property property.name entries).getD .null) = .ok value := by
    rw [Outcome.exists_collect_iff, propertyOutcomes, List.forall_mem_map]
    exact forall₂_congr fun property _ => exists_map_eq_ok
  constructor
  · intro accepted
    rcases accepted with ⟨output, accepted⟩
    rcases complete_of_object accepted with ⟨present, declared⟩
    rw [object_of_complete path present declared] at accepted
    exact ⟨present, declared, collected.mp (exists_map_eq_ok.mp ⟨output, accepted⟩)⟩
  · intro conditions
    rcases conditions with ⟨present, declared, each⟩
    rw [object_of_complete path present declared, exists_map_eq_ok]
    exact collected.mpr each

theorem object_accepts_without {output : Value} {name : String}
    (accepted : object properties path (.dict entries) = .ok output)
    (waived : ∀ property ∈ properties, property.name = name → property.required = false) :
    (∃ output, object properties path (.dict (Value.without name entries)) = .ok output) ↔
      ∀ property ∈ properties, property.name = name →
        ∃ value, property.check .null = .ok value := by
  rcases object_accepts.mp ⟨output, accepted⟩ with ⟨present, declared, each⟩
  have stillPresent : missing properties (Value.without name entries) = [] := by
    apply missing_eq_nil.mpr
    intro property member required
    have different : property.name ≠ name := by
      intro same
      rw [waived property member same] at required
      cases required
    rw [Value.property_without_of_ne different]
    exact missing_eq_nil.mp present property member required
  have stillDeclared : surplus properties (Value.without name entries) = [] := by
    apply surplus_eq_nil.mpr
    intro entry member
    exact surplus_eq_nil.mp declared entry (List.mem_filter.mp member).1
  rw [object_accepts]
  constructor
  · intro conditions property member same
    have own := conditions.2.2 property member
    rw [same, Value.property_without_self] at own
    exact own
  · intro accepts
    refine ⟨stillPresent, stillDeclared, ?_⟩
    intro property member
    by_cases same : property.name = name
    · rw [same, Value.property_without_self]
      exact accepts property member same
    · rw [Value.property_without_of_ne same]
      exact each property member

end Check

namespace Schema

variable {calls : Calls} {schema : Schema}

/-- The steps after the optional one that the schema opens with accept its default. -/
def AcceptsDefault (calls : Calls) (schema : Schema) : Prop :=
  ∃ inner fallback rest default output, schema.steps = .step (.optional inner fallback) :: rest ∧
    defaultOf calls inner fallback = .ok default ∧ Resumes calls rest default output

theorem steps_of_mayBeAbsent (compiles : schema.Compiles calls)
    (absent : schema.mayBeAbsent = true) :
    ∃ inner fallback rest, schema.steps = .step (.optional inner fallback) :: rest := by
  by_cases listed : ∃ schemas, schema = .list schemas
  · rcases listed with ⟨schemas, rfl⟩
    rcases ((mayBeAbsent_bracketed (plain_of_compiles compiles)).mp absent).2 with
      ⟨step, first, inner, fallback, rfl⟩
    rcases List.head?_eq_some_iff.mp first with ⟨rest, shape⟩
    exact ⟨inner, fallback, rest, shape⟩
  · have plain : ∀ schemas, schema ≠ .list schemas := fun schemas same => listed ⟨schemas, same⟩
    rcases (mayBeAbsent_iff plain).mp absent with ⟨inner, fallback, rfl⟩
    exact ⟨inner, fallback, [], rfl⟩

theorem accepts_null_iff {check : Check} (compiled : compile calls schema [] = .ok check)
    (absent : schema.mayBeAbsent = true) :
    (∃ value, check .null = .ok value) ↔ schema.AcceptsDefault calls := by
  rcases steps_of_mayBeAbsent ⟨check, compiled⟩ absent with ⟨inner, fallback, rest, shape⟩
  have whole := compiled
  rw [compile_eq, shape] at compiled
  rcases optional_then compiled with ⟨own, default, later, inside, accepted, alone, checks⟩
  have known := defaultOf_eq_ok.mpr ⟨own, inside, accepted⟩
  constructor
  · intro found
    rcases found with ⟨value, passed⟩
    exact ⟨inner, fallback, rest, default, value, shape, known,
      resumes_of_accepted shape known whole passed⟩
  · intro found
    rcases found with ⟨_, _, _, other, output, steps, defaults, resumes⟩
    rw [shape] at steps
    cases steps
    cases known.symm.trans defaults
    rw [checks]
    rcases alone with ⟨_, rfl⟩ | compiledRest
    · exact ⟨default, rfl⟩
    · rcases resumes with ⟨rfl, _⟩ | ⟨_, same, passed⟩
      · rw [checkOfSteps_of_fault calls [] rfl] at compiledRest
        cases compiledRest
      · cases compiledRest.symm.trans same
        exact ⟨output, passed⟩

theorem acceptsDefault_of_alone {check : Check} (compiled : compile calls schema [] = .ok check)
    (absent : schema.mayBeAbsent = true) (alone : schema.steps.length = 1) :
    schema.AcceptsDefault calls := by
  rcases steps_of_mayBeAbsent ⟨check, compiled⟩ absent with ⟨inner, fallback, rest, shape⟩
  have none : rest = [] := by
    rw [shape, List.length_cons] at alone
    exact List.length_eq_zero_iff.mp (by omega)
  rw [compile_eq, shape] at compiled
  rcases optional_then compiled with ⟨own, default, _, inside, accepted, _, _⟩
  exact ⟨inner, fallback, rest, default, default, shape,
    defaultOf_eq_ok.mpr ⟨own, inside, accepted⟩, .inl ⟨none, rfl⟩⟩

end Schema

theorem Check.Property.Compiles.accepts_null_iff {calls : Calls} {path : Path}
    {field : String × Schema}
    {property : Check.Property} (compiles : property.Compiles calls path field)
    (absent : field.2.mayBeAbsent = true) :
    (∃ value, property.check .null = .ok value) ↔ field.2.AcceptsDefault calls := by
  rcases eq_under_of_compiled compiles.check with ⟨root, compiled, moved⟩
  simp only [moved, Check.under, Outcome.under_eq_ok]
  exact Schema.accepts_null_iff compiled absent

/-- A name that may be absent can be left out of an accepted dict if and only if, for each schema
under it, the steps after the optional one accept the default; so it always can where no such steps
are. -/
theorem absence_accepted_iff {calls : Calls} {path : Path} {fields : Fields} {check : Check}
    (compiled : compile calls (.step (.object fields)) path = .ok check)
    {entries : List (Value × Value)} {output : Value}
    (accepted : check (.dict entries) = .ok output)
    {name : String} (absent : ∀ field ∈ fields, field.1 = name → field.2.mayBeAbsent = true) :
    ((∃ output, check (.dict (Value.without name entries)) = .ok output) ↔
      ∀ field ∈ fields, field.1 = name → field.2.AcceptsDefault calls) ∧
    ((∀ field ∈ fields, field.1 = name → field.2.steps.length = 1) →
      ∃ output, check (.dict (Value.without name entries)) = .ok output) := by
  rw [compile_object] at compiled
  rcases map_eq_ok.mp compiled with ⟨properties, known, rfl⟩
  have matched := propertiesOfFields_eq_ok.mp known
  have waived : ∀ property ∈ properties, property.name = name → property.required = false := by
    intro property member same
    rcases exists_mem_of_forall₂ matched member with ⟨field, inside, compiles⟩
    rw [compiles.required, absent field inside (compiles.name.symm.trans same)]
    rfl
  have decided : (∀ property ∈ properties, property.name = name →
    ∃ value, property.check .null = .ok value) ↔
      ∀ field ∈ fields, field.1 = name → field.2.AcceptsDefault calls := by
    constructor
    · intro each field member same
      rcases exists_mem_of_forall₂ matched.flip member with ⟨property, inside, compiles⟩
      exact (compiles.accepts_null_iff (absent field member same)).mp
        (each property inside (compiles.name.trans same))
    · intro each property member same
      rcases exists_mem_of_forall₂ matched member with ⟨field, inside, compiles⟩
      have named : field.1 = name := compiles.name.symm.trans same
      exact (compiles.accepts_null_iff (absent field inside named)).mpr (each field inside named)
  have lacking := (Check.object_accepts_without accepted waived).trans decided
  refine ⟨lacking, ?_⟩
  intro alone
  apply lacking.mpr
  intro field member same
  rcases exists_mem_of_forall₂ matched.flip member with ⟨property, _, compiles⟩
  rcases (Schema.compiles_anywhere _).mp ⟨property.check, compiles.check⟩ with ⟨root, compiledField⟩
  exact Schema.acceptsDefault_of_alone compiledField (absent field member same)
    (alone field member same)

def aboveOne : Calls := fun _ value =>
  match value with
  | .int n => .value (.bool (decide (1 < n)))
  | _ => .value (.bool false)

def guardedNumber (fallback : Int) : Fields :=
  [("k", .list [.step (.optional (.str "number") (.int fallback)),
    .step (.predicate ⟨"large", 0⟩ "too small" none)])]

theorem guardedNumber_absent :
    ∃ check, compile aboveOne (.step (.object (guardedNumber 3))) [] = .ok check ∧
      (∃ output, check (.dict [(.str "k", .int 5)]) = .ok output) ∧
      ∃ output, check (.dict (Value.without "k" [(.str "k", .int 5)])) = .ok output := by
  have accepts : (compile aboveOne (.step (.object (guardedNumber 3))) []).map
      (fun check => (check (.dict [(.str "k", .int 5)])).isOk) = .ok true := by
    cbv
  have resumes : (checkOfSteps aboveOne [.step (.predicate ⟨"large", 0⟩ "too small" none)] []).map
      (fun later => later (.int 3)) = .ok (.ok (.int 3)) := by
    cbv
  rcases map_eq_ok.mp accepts with ⟨check, compiled, passes⟩
  rcases exists_ok_of_isOk passes with ⟨output, accepted⟩
  rcases map_eq_ok.mp resumes with ⟨later, compiledLater, passed⟩
  refine ⟨check, compiled, ⟨output, accepted⟩, ?_⟩
  apply (absence_accepted_iff compiled accepted ?_).1.mpr
  · intro field member _
    rw [List.mem_singleton.mp member]
    refine ⟨.str "number", .int 3, _, .int 3, .int 3, rfl, ?_, .inr ⟨later, compiledLater, passed⟩⟩
    cbv
  · intro field member _
    rw [List.mem_singleton.mp member]
    rfl

/-- Left out, the number is taken to be zero, which is a number but too small. -/
theorem guardedNumber_needed :
    ∃ check output, compile aboveOne (.step (.object (guardedNumber 0))) [] = .ok check ∧
      (∀ field ∈ guardedNumber 0, field.2.mayBeAbsent = true) ∧
      check (.dict [(.str "k", .int 5)]) = .ok output ∧
      check (.dict (Value.without "k" [(.str "k", .int 5)])) =
        .error [⟨[.name "k"], "too small", none⟩] := by
  have answers : (compile aboveOne (.step (.object (guardedNumber 0))) []).map
      (fun check => (check (.dict [(.str "k", .int 5)]),
        check (.dict (Value.without "k" [(.str "k", .int 5)])))) =
      .ok (.ok (.dict [(.str "k", .int 5)]), .error [⟨[.name "k"], "too small", none⟩]) := by
    cbv
  rcases map_eq_ok.mp answers with ⟨check, compiled, same⟩
  rcases Prod.mk.inj same with ⟨accepted, rejected⟩
  refine ⟨check, _, compiled, ?_, accepted, rejected⟩
  intro field member
  rw [List.mem_singleton.mp member]
  rfl

end SchemaCheck
