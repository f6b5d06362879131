import SchemaCheck.Proofs.Decomposition
import SchemaCheck.Proofs.Missing
import SchemaCheck.Proofs.WellFormed

/-!
Brackets around parts of a field's chain. They change neither what the chain compiles to nor, with
one exception, whether its object requires the name: an optional step that comes first only after an
empty chain is spliced in makes the name optional without the brackets and leaves it required with
them.
-/

namespace SchemaCheck

namespace Schema

def IsOptional (step : Schema) : Prop :=
  ∃ inner fallback, step = .step (.optional inner fallback)

/-- The first step after splicing is an optional one. -/
def OpensOptional (schema : Schema) : Prop :=
  ∃ step ∈ schema.steps.head?, step.IsOptional

/-- An empty chain stands before the optional step that a chain opens with. -/
def HidesOptional (schemas : List Schema) : Prop :=
  schemas.head? = some (.list []) ∧ OpensOptional (.list schemas)

theorem mayBeAbsent_iff {step : Schema} (plain : ∀ schemas, step ≠ .list schemas) :
    step.mayBeAbsent = true ↔ step.IsOptional := by
  cases step with
  | list schemas => exact absurd rfl (plain schemas)
  | step composite => cases composite <;> simp [mayBeAbsent, IsOptional]
  | _ => simp [mayBeAbsent, IsOptional]

section Plain

variable {schemas : List Schema}
    (plain : ∀ step ∈ steps (.list schemas), ∀ inner, step ≠ .list inner)

include plain

theorem steps_steps : steps (.list (steps (.list schemas))) = steps (.list schemas) := by
  have alone : ∀ step ∈ steps (.list schemas), steps.splice step = [step] := by
    intro step member
    unfold steps.splice
    split
    · exact absurd rfl (plain _ member _)
    · rfl
  calc steps (.list (steps (.list schemas)))
      = (steps (.list schemas)).flatMap fun step => [step] := List.flatMap_congr alone
    _ = steps (.list schemas) := List.flatMap_singleton' _

theorem mayBeAbsent_of_first {first : Schema} {rest : List Schema}
    (shape : steps (.list schemas) = first :: rest) :
    first.mayBeAbsent = true ↔ OpensOptional (.list schemas) := by
  have single := plain first (by rw [shape]; exact List.mem_cons_self)
  rw [mayBeAbsent_iff single, OpensOptional, shape]
  simp

theorem mayBeAbsent_bracketed :
    mayBeAbsent (.list schemas) = true ↔
      schemas.head? ≠ some (.list []) ∧ OpensOptional (.list schemas) := by
  cases schemas with
  | nil => simp [mayBeAbsent, OpensOptional, steps]
  | cons head tail =>
      by_cases bracketed : ∃ inner, head = .list inner
      · rcases bracketed with ⟨inner, rfl⟩
        cases inner with
        | nil => simp [mayBeAbsent]
        | cons first rest =>
            have shape : steps (.list (.list (first :: rest) :: tail)) =
                first :: (rest ++ steps (.list tail)) := rfl
            have opening := mayBeAbsent_of_first plain shape
            simp [mayBeAbsent, opening]
      · have single : steps.splice head = [head] := by
          unfold steps.splice
          split
          · exact absurd ⟨_, rfl⟩ bracketed
          · rfl
        have shape : steps (.list (head :: tail)) = head :: steps (.list tail) :=
          congrArg (· ++ steps (.list tail)) single
        have notEmpty : head ≠ .list [] := fun same => bracketed ⟨[], same⟩
        rw [mayBeAbsent, mayBeAbsent_of_first plain shape]
        simp [notEmpty]

theorem mayBeAbsent_flattened :
    mayBeAbsent (.list (steps (.list schemas))) = true ↔ OpensOptional (.list schemas) := by
  cases shape : steps (.list schemas) with
  | nil => simp [mayBeAbsent, OpensOptional, shape]
  | cons first rest => rw [mayBeAbsent, mayBeAbsent_of_first plain shape]

theorem mayBeAbsent_flattened_iff :
    mayBeAbsent (.list schemas) = mayBeAbsent (.list (steps (.list schemas))) ↔
      ¬HidesOptional schemas := by
  rw [Bool.eq_iff_iff, mayBeAbsent_bracketed plain, mayBeAbsent_flattened plain, HidesOptional]
  tauto

end Plain

section Compiled

variable {calls : Calls}

theorem plain_of_compiles {schemas : List Schema} (compiles : Compiles calls (.list schemas)) :
    ∀ step ∈ steps (.list schemas), ∀ inner, step ≠ .list inner := by
  intro step member inner same
  cases spliced : steps (.list schemas) with
  | nil =>
      rw [spliced] at member
      cases member
  | cons first rest =>
      have arranged := compiles_iff_arranged.mp compiles
      rw [spliced] at arranged member
      rcases kind_of_stepCompiles ((arrange_compiles.mp arranged).2.1 step member) with
        ⟨kind, known⟩
      rw [same] at known
      cases known

theorem compile_flattened {schemas : List Schema} (compiles : Compiles calls (.list schemas))
    (path : Path) :
    compile calls (.list (steps (.list schemas))) path = compile calls (.list schemas) path := by
  rw [compile_eq, compile_eq, steps_steps (plain_of_compiles compiles)]

end Compiled

end Schema

section Objects

variable {calls : Calls}

theorem missing_length (front back : List Check.Property) (property : Check.Property) :
    (Check.missing (front ++ property :: back) []).length =
      (Check.missing front []).length + (Check.missing back []).length +
        property.required.toNat := by
  cases required : property.required <;>
    simp [Check.missing, List.filter_append, required, Value.property]
  omega

/-- Objects that differ in whether one name is required are told apart by an empty dict. -/
theorem object_eq_iff {fields others : List (String × Schema)} {front back : List Check.Property}
    {name : String} {check : Check} {required needed : Bool}
    (left : propertiesOfFields calls fields [] = .ok (front ++ ⟨name, required, check⟩ :: back))
    (right : propertiesOfFields calls others [] = .ok (front ++ ⟨name, needed, check⟩ :: back)) :
    (∀ value, Check.object (front ++ ⟨name, required, check⟩ :: back) [] value =
      Check.object (front ++ ⟨name, needed, check⟩ :: back) [] value) ↔ required = needed := by
  constructor
  · intro same
    -- An empty dict lacks every name, so its complaint counts the required ones.
    have leftMissing := missing_length front back ⟨name, required, check⟩
    have rightMissing := missing_length front back ⟨name, needed, check⟩
    have lists := missing_eq_of_object_eq left right (same (.dict []))
    rw [lists, rightMissing] at leftMissing
    revert leftMissing
    cases required <;> cases needed <;> simp
  · intro same value
    rw [same]

theorem exists_properties {fields : List (String × Schema)}
    (compile : ∀ field ∈ fields, Schema.Compiles calls field.2) :
    ∃ properties, propertiesOfFields calls fields [] = .ok properties := by
  have compiled := Schema.stepCompiles_object.mpr compile
  rw [Schema.StepCompiles, checkOfStep_object, exists_map_eq_ok] at compiled
  exact compiled

theorem properties_around {front back : Fields} {before after : List Check.Property}
    (frontCompiled : propertiesOfFields calls front [] = .ok before)
    (backCompiled : propertiesOfFields calls back [] = .ok after) {name : String} {schema : Schema}
    {check : Check} (compiled : compile calls schema (Path.extended [] (.name name)) = .ok check) :
    propertiesOfFields calls (front ++ (name, schema) :: back) [] =
      .ok (before ++ ⟨name, !schema.mayBeAbsent, check⟩ :: after) := by
  rw [propertiesOfFields_eq_ok] at frontCompiled backCompiled ⊢
  exact List.rel_append frontCompiled (.cons ⟨rfl, rfl, compiled⟩ backCompiled)

end Objects

/-- Brackets inside the chain of a field are invisible to the object unless they hide an optional
step; only then is the name required of a chain that opens with an optional step. -/
theorem brackets_invisible_iff {calls : Calls} {schemas : List Schema}
    (compiles : Schema.Compiles calls (.list schemas)) (name : String) {front back : Fields}
    (others : ∀ field ∈ front ++ back, field.2.Compiles calls) :
    ∃ bracketed flattened,
      compile calls (.step (.object (front ++ (name, .list schemas) :: back))) [] = .ok bracketed ∧
      compile calls (.step (.object
        (front ++ (name, .list (Schema.steps (.list schemas))) :: back))) [] = .ok flattened ∧
      ((∀ value, bracketed value = flattened value) ↔ ¬Schema.HidesOptional schemas) ∧
      ((Schema.mayBeAbsent (.list schemas) = true ↔ Schema.OpensOptional (.list schemas)) ↔
        ¬Schema.HidesOptional schemas) := by
  have plain := Schema.plain_of_compiles compiles
  rcases List.forall_mem_append.mp others with ⟨frontCompile, backCompile⟩
  rcases exists_properties frontCompile with ⟨before, frontCompiled⟩
  rcases exists_properties backCompile with ⟨after, backCompiled⟩
  rcases (Schema.compiles_anywhere (Path.extended [] (.name name))).mpr compiles with
    ⟨check, compiled⟩
  have left := properties_around frontCompiled backCompiled compiled
  have right := properties_around frontCompiled backCompiled
    ((Schema.compile_flattened compiles _).trans compiled)
  refine ⟨_, _, by rw [compile_object, left]; rfl, by rw [compile_object, right]; rfl, ?_, ?_⟩
  · rw [object_eq_iff left right, Bool.not_inj_iff, Schema.mayBeAbsent_flattened_iff plain]
  · rw [← Schema.mayBeAbsent_flattened plain, ← Schema.mayBeAbsent_flattened_iff plain]
    exact Bool.eq_iff_iff.symm

def bracketedOptional : List Schema :=
  [.list [.step (.optional (.str "string") (.str "none")),
    .step (.predicate ⟨"short", 0⟩ "long" none)], .step (.predicate ⟨"plain", 1⟩ "odd" none)]

theorem bracketedOptional_invisible :
    ∃ bracketed flattened,
      compile (fun _ _ => .value (.bool true))
        (.step (.object [("k", .list bracketedOptional), ("n", .str "number")])) [] =
          .ok bracketed ∧
      compile (fun _ _ => .value (.bool true)) (.step (.object
        [("k", .list (Schema.steps (.list bracketedOptional))), ("n", .str "number")])) [] =
          .ok flattened ∧
      ∀ value, bracketed value = flattened value := by
  have compiles : Schema.Compiles (fun _ _ => .value (.bool true)) (.list bracketedOptional) :=
    exists_ok_of_isOk (by cbv)
  have others : ∀ field ∈ [] ++ [("n", Value.str "number")],
      Schema.Compiles (fun _ _ => .value (.bool true)) field.2 := by
    intro field member
    rw [List.mem_singleton.mp member]
    exact exists_ok_of_isOk (by cbv)
  rcases brackets_invisible_iff compiles "k" others with
    ⟨bracketed, flattened, left, right, invisible, _⟩
  refine ⟨bracketed, flattened, left, right, invisible.mpr ?_⟩
  intro found
  rcases found with ⟨impossible, _⟩
  cases impossible

def hiddenOptional : List Schema :=
  [.list [], .step (.optional (.str "boolean") (.bool false))]

theorem hiddenOptional_visible :
    ∃ bracketed flattened,
      compile (fun _ value => .value value)
        (.step (.object [("k", .list hiddenOptional)])) [] = .ok bracketed ∧
      compile (fun _ value => .value value)
        (.step (.object [("k", .list (Schema.steps (.list hiddenOptional)))])) [] = .ok flattened ∧
      bracketed (.dict []) = Complaint.reject [] (.missing ["k"]) ∧
      flattened (.dict []) = .ok (.dict [(.str "k", .bool false)]) := by
  have left : (compile (fun _ value => .value value)
      (.step (.object [("k", .list hiddenOptional)])) []).map (· (.dict [])) =
        .ok (Complaint.reject [] (.missing ["k"])) := by
    cbv
  have right : (compile (fun _ value => .value value)
      (.step (.object [("k", .list (Schema.steps (.list hiddenOptional)))])) []).map
        (· (.dict [])) =
        .ok (.ok (.dict [(.str "k", .bool false)])) := by
    cbv
  rcases map_eq_ok.mp left with ⟨bracketed, compiled, rejected⟩
  rcases map_eq_ok.mp right with ⟨flattened, others, accepted⟩
  exact ⟨bracketed, flattened, compiled, others, rejected, accepted⟩

end SchemaCheck
