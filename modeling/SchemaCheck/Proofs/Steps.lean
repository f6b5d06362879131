import SchemaCheck.Proofs.Placement.Fault

/-!
What a step turns into. For each kind of step it is said once which check comes out and what that
takes, so that whatever holds of all compiled steps is shown check by check; and it is said once
what a step can be refused for.
-/

namespace SchemaCheck

/-- The check that a step turns into at a place, if it compiles there. -/
inductive TurnsInto (calls : Calls) (path : Path) : Schema → Check → Prop
  | basic {name : String} {kind : BasicKind} :
      BasicKind.ofName? name = some kind → TurnsInto calls path (.str name) (Check.basic kind path)
  | function (callable : Callable) :
      TurnsInto calls path (.function callable) (Check.function calls callable path)
  | predicate (test : Callable) {message : String} (detail : Option Detail) :
      message.isEmpty = false →
      TurnsInto calls path (.step (.predicate test message detail))
        (Check.predicate calls test message detail path)
  | optional {inner : Schema} {fallback default : Value} {own : Check} :
      compile calls inner path = .ok own → own fallback = .ok default →
      TurnsInto calls path (.step (.optional inner fallback)) (Check.optional default own)
  | enum {options : Value} {literals : List Value} :
      literalOptions options = .ok literals →
      TurnsInto calls path (.step (.enum options)) (Check.enum options literals path)
  | object {fields : List (String × Schema)} {properties : List Check.Property} :
      propertiesOfFields calls fields path = .ok properties →
      TurnsInto calls path (.step (.object fields)) (Check.object properties path)
  | indexed {entries : Value} {parts : List Schema} {checks : List Check} :
      entries.items? = some parts → checksOfParts calls indexSegment 0 parts path = .ok checks →
      TurnsInto calls path (.step (.indexed entries)) (Check.indexed checks path)
  | oneOf {branches : Value} {parts : List Schema} {checks : List Check} :
      branches.items? = some parts → checksOfParts calls branchSegment 0 parts path = .ok checks →
      TurnsInto calls path (.step (.oneOf branches)) (Check.oneOf checks)

variable {calls : Calls} {path : Path}

theorem TurnsInto.kind {step : Schema} {check : Check} (turns : TurnsInto calls path step check) :
    ∃ kind, step.kind = .ok kind := by
  cases turns with
  | basic found => exact ⟨.basic _, by rw [Schema.kind, found]⟩
  | _ => exact ⟨_, rfl⟩

theorem part_of_check {segment : Nat → Segment} {parts : List Schema} {checks : List Check}
    (compiled : checksOfParts calls segment 0 parts path = .ok checks) {check : Check}
    (member : check ∈ checks) : ∃ part ∈ parts, ∃ place, compile calls part place = .ok check := by
  rcases exists_mem_of_forall₂ (checksOfParts_eq_ok.mp compiled) member with
    ⟨⟨part, _⟩, placed, own⟩
  exact ⟨part, List.fst_mem_of_mem_zipIdx placed, _, own⟩

theorem branches_ne_nil {branches : Value} {parts : List Schema} {check : Check}
    (compiled : checkOfStep calls (.step (.oneOf branches)) path = .ok check)
    (listed : branches.items? = some parts) : parts ≠ [] := by
  rintro rfl
  rw [checkOfStep_oneOf_of_empty calls path (by rw [listed]; rfl)] at compiled
  cases compiled

theorem part_of_property {fields : List (String × Schema)} {properties : List Check.Property}
    (compiled : propertiesOfFields calls fields path = .ok properties) {property : Check.Property}
    (member : property ∈ properties) :
    ∃ part ∈ Schema.parts (.step (.object fields)), ∃ place, compile calls part place =
      .ok property.check := by
  rcases exists_mem_of_forall₂ (propertiesOfFields_eq_ok.mp compiled) member with
    ⟨field, inside, compiles⟩
  exact ⟨field.2, List.mem_map_of_mem inside, _, compiles.check⟩

theorem turnsInto_of_compiled {step : Schema} {check : Check}
    (compiled : checkOfStep calls step path = .ok check) : TurnsInto calls path step check := by
  cases step with
  | str name =>
      rw [checkOfStep] at compiled
      split at compiled
      · rename_i kind found
        cases compiled
        exact .basic found
      · cases compiled
  | function callable =>
      rw [checkOfStep] at compiled
      cases compiled
      exact .function callable
  | step composite =>
      cases composite with
      | predicate test message detail =>
          rw [checkOfStep] at compiled
          split at compiled
          · cases compiled
          · rename_i worded
            cases compiled
            exact .predicate test detail (Bool.eq_false_iff.mpr worded)
      | optional inner fallback =>
          rw [checkOfStep_optional] at compiled
          rcases bind_eq_ok.mp compiled with ⟨own, inside, accepted⟩
          rcases map_eq_ok.mp accepted with ⟨default, filled, rfl⟩
          exact .optional inside (acceptedFallback_eq_ok.mp filled)
      | enum options =>
          rw [checkOfStep] at compiled
          split at compiled
          · cases compiled
          · rename_i literals known
            cases compiled
            exact .enum known
      | object fields =>
          rw [checkOfStep_object] at compiled
          rcases map_eq_ok.mp compiled with ⟨properties, known, rfl⟩
          exact .object known
      | indexed entries =>
          cases listed : entries.items? with
          | none =>
              rw [checkOfStep_indexed_of_none _ _ listed] at compiled
              cases compiled
          | some parts =>
              rw [checkOfStep_indexed _ _ listed] at compiled
              rcases map_eq_ok.mp compiled with ⟨checks, known, rfl⟩
              exact .indexed listed known
      | oneOf branches =>
          by_cases empty : branches.items?.getD [] = []
          · rw [checkOfStep_oneOf_of_empty _ _ empty] at compiled
            cases compiled
          · rcases Value.items_of_nonempty empty with ⟨first, rest, listed⟩
            rw [checkOfStep_oneOf _ _ listed] at compiled
            rcases map_eq_ok.mp compiled with ⟨checks, known, rfl⟩
            exact .oneOf listed known
  | _ =>
      rw [checkOfStep] at compiled
      · cases compiled
      all_goals simp

/-- Why a step is refused at a place: for how it is written, for a fallback that its own schema
rejects, or for a defect of a part. -/
inductive RefusedFor (calls : Calls) (path : Path) : Schema → Defect → Prop
  | itself (step : Schema) {fault : Fault} :
      fault.IsStatic → RefusedFor calls path step ⟨path, fault⟩
  | fallback {inner : Schema} {fallback : Value} {own : Check} {issues : List Issue} :
      compile calls inner path = .ok own → own fallback = .error issues →
      RefusedFor calls path (.step (.optional inner fallback)) ⟨path, .fallbackRejected issues⟩
  | part {step : Schema} {part : Path × Schema} {defect : Defect} :
      part ∈ step.located → part.2 ∈ step.parts →
      compile calls part.2 (path ++ part.1) = .error defect → RefusedFor calls path step defect

theorem refusedFor_of_static {step : Schema} {fault : Fault} {defect : Defect}
    (static : fault.IsStatic)
    (refused : (Fault.at path fault : Except Defect Check) = .error defect) :
    RefusedFor calls path step defect := by
  cases refused
  exact .itself step static

theorem mem_located_of_positioned {segment : Nat → Segment} {parts : List Schema} {defect : Defect}
    (refused : checksOfParts calls segment 0 parts path = .error defect) :
    ∃ part : Path × Schema, part ∈ parts.zipIdx.map (fun part => ([segment part.2], part.1)) ∧
      part.2 ∈ parts ∧ compile calls part.2 (path ++ part.1) = .error defect := by
  rw [checksOfParts_eq_mapM] at refused
  rcases mapM_eq_error refused with ⟨part, member, own⟩
  exact ⟨_, List.mem_map_of_mem member, List.fst_mem_of_mem_zipIdx member, own⟩

theorem refusedFor_of_refused {step : Schema} {defect : Defect}
    (refused : checkOfStep calls step path = .error defect) :
      RefusedFor calls path step defect := by
  cases step with
  | str name =>
      rw [checkOfStep] at refused
      split at refused
      · cases refused
      · exact refusedFor_of_static (by simp [Fault.IsStatic]) refused
  | function callable =>
      rw [checkOfStep] at refused
      cases refused
  | step composite =>
      cases composite with
      | predicate test message detail =>
          rw [checkOfStep] at refused
          split at refused
          · exact refusedFor_of_static (by simp [Fault.IsStatic]) refused
          · cases refused
      | optional inner fallback =>
          rw [checkOfStep_optional] at refused
          rcases bind_eq_error.mp refused with own | ⟨check, compiled, filling⟩
          · have here : compile calls inner (path ++ []) = .error defect := by rwa [List.append_nil]
            exact .part List.mem_cons_self List.mem_cons_self here
          · have rejected := map_eq_error.mp filling
            unfold acceptedFallback at rejected
            split at rejected
            · cases rejected
            · rename_i issues answer
              cases rejected
              exact .fallback compiled answer
      | enum options =>
          rw [checkOfStep] at refused
          split at refused
          · rename_i fault unlisted
            exact refusedFor_of_static (literalOptions_static unlisted) refused
          · cases refused
      | object fields =>
          rw [checkOfStep_object, propertiesOfFields_eq_mapM] at refused
          rcases mapM_eq_error (map_eq_error.mp refused) with ⟨field, member, own⟩
          exact .part (List.mem_map_of_mem member) (List.mem_map_of_mem member)
            (map_eq_error.mp own)
      | indexed entries =>
          cases listed : entries.items? with
          | none =>
              rw [checkOfStep_indexed_of_none _ _ listed] at refused
              exact refusedFor_of_static (by simp [Fault.IsStatic]) refused
          | some parts =>
              rw [checkOfStep_indexed _ _ listed] at refused
              rcases mem_located_of_positioned (map_eq_error.mp refused) with
                ⟨part, placed, member, own⟩
              refine .part ?_ ?_ own
              · simpa only [Schema.located, listed, Option.getD_some] using placed
              · rwa [Schema.parts_indexed listed]
      | oneOf branches =>
          by_cases empty : branches.items?.getD [] = []
          · rw [checkOfStep_oneOf_of_empty _ _ empty] at refused
            exact refusedFor_of_static (by simp [Fault.IsStatic]) refused
          · rcases Value.items_of_nonempty empty with ⟨first, rest, listed⟩
            rw [checkOfStep_oneOf _ _ listed] at refused
            rcases mem_located_of_positioned (map_eq_error.mp refused) with
              ⟨part, placed, member, own⟩
            refine .part ?_ ?_ own
            · simpa only [Schema.located, listed, Option.getD_some] using placed
            · rwa [Schema.parts_oneOf listed]
  | _ =>
      rw [checkOfStep] at refused
      · exact refusedFor_of_static (by simp [Fault.IsStatic]) refused
      all_goals simp

/-- Why a schema is refused at a place: its steps cannot be arranged, or one that they are arranged
to is refused there. -/
theorem refused_chain {schema : Schema} {defect : Defect}
    (refused : compile calls schema path = .error defect) :
    (∃ fault, Chain.arrange schema.steps = .error fault ∧ defect = ⟨path, fault⟩) ∨
      ∃ arranged, Chain.arrange schema.steps = .ok arranged ∧
        ∃ step ∈ arranged, checkOfStep calls step path = .error defect := by
  rw [compile_eq] at refused
  cases arranging : Chain.arrange schema.steps with
  | error fault =>
      rw [checkOfSteps_of_fault _ _ arranging] at refused
      cases refused
      exact .inl ⟨fault, rfl, rfl⟩
  | ok arranged =>
      rw [checkOfSteps_of_arranged _ _ arranging, checksOfSteps_eq_mapM] at refused
      rcases mapM_eq_error (map_eq_error.mp refused) with ⟨step, member, own⟩
      exact .inr ⟨arranged, rfl, step, member, own⟩

end SchemaCheck
