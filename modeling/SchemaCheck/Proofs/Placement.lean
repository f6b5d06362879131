import SchemaCheck.Proofs.Placement.Check
import SchemaCheck.Proofs.Placement.Fault

/-!
Compiling knows nothing of where a schema stands but the place it is told. What it answers at a
place is what it answers at the root, seen from further out: the check rejects with the same issues
below that place, and a defect names the same fault there.
-/

namespace SchemaCheck

/-- The same detail seen from further out; only listed issues have places. -/
def Detail.under (base : Path) : Detail → Detail
  | .errors issues => .errors (issues.map (Issue.under base))
  | detail => detail

theorem Fault.detail_under (base : Path) (fault : Fault) :
    (fault.under base).detail = fault.detail.map (Detail.under base) := by
  cases fault <;> rfl

def Defect.under (base : Path) (defect : Defect) : Defect :=
  ⟨base ++ defect.path, defect.fault.under base⟩

/-- What compiling answers, seen from further out, where `move` moves what was compiled. -/
def placed {α : Type} (move : α → α) (base : Path) : Except Defect α → Except Defect α
  | .ok compiled => .ok (move compiled)
  | .error defect => .error (defect.under base)

section Placed

variable {α β : Type} {move : α → α} {later : β → β} {base : Path}

theorem placed_bind {first : Except Defect α} {next moved : α → Except Defect β}
    (same : ∀ compiled, moved (move compiled) = placed later base (next compiled)) :
    placed move base first >>= moved = placed later base (first >>= next) := by
  cases first with
  | error defect => rfl
  | ok compiled => exact same compiled

theorem placed_map {first : Except Defect α} {change moved : α → β}
    (same : ∀ compiled, moved (move compiled) = later (change compiled)) :
    (placed move base first).map moved = placed later base (first.map change) := by
  cases first with
  | error defect => rfl
  | ok compiled => exact congrArg Except.ok (same compiled)

theorem placed_mapM {ι : Type} {items : List ι} {visit moved : ι → Except Defect α}
    (same : ∀ item ∈ items, moved item = placed move base (visit item)) :
    items.mapM moved = placed (List.map move) base (items.mapM visit) := by
  induction items with
  | nil => rfl
  | cons item rest ih =>
      rcases List.forall_mem_cons.mp same with ⟨head, others⟩
      rw [List.mapM_cons, List.mapM_cons, head, ih others]
      apply placed_bind
      intro compiled
      apply placed_bind
      intro all
      rfl

end Placed

theorem Fault.at_append {α : Type} {move : α → α} {fault : Fault} (base path : Path)
    (placeless : fault.IsPlaceless) :
    Fault.at (base ++ path) fault = placed move base (Fault.at path fault) := by
  change Except.error _ = Except.error _
  rw [Defect.under, placeless base]

namespace Schema

/-- Compiling this schema answers the same everywhere, seen from further out. -/
def Moves (calls : Calls) (schema : Schema) : Prop :=
  ∀ base path, compile calls schema (base ++ path) =
    placed (Check.under base) base (compile calls schema path)

def StepMoves (calls : Calls) (step : Schema) : Prop :=
  ∀ base path, checkOfStep calls step (base ++ path) =
    placed (Check.under base) base (checkOfStep calls step path)

end Schema

section Lists

variable {calls : Calls}

theorem checksOfSteps_append {steps : List Schema}
    (moves : ∀ step ∈ steps, Schema.StepMoves calls step) (base path : Path) :
    checksOfSteps calls steps (base ++ path) =
      placed (List.map (Check.under base)) base (checksOfSteps calls steps path) := by
  rw [checksOfSteps_eq_mapM, checksOfSteps_eq_mapM]
  exact placed_mapM fun step member => moves step member base path

/-- What stands inside moves along with what it stands in. -/
theorem compile_extended_append {schema : Schema} (moves : schema.Moves calls) (base path : Path)
    (segment : Segment) :
    compile calls schema ((base ++ path).extended segment) =
      placed (Check.under base) base (compile calls schema (path.extended segment)) := by
  rw [Path.extended, List.append_assoc]
  exact moves base (path.extended segment)

theorem propertiesOfFields_append {fields : List (String × Schema)}
    (moves : ∀ field ∈ fields, Schema.Moves calls field.2) (base path : Path) :
    propertiesOfFields calls fields (base ++ path) =
      placed (List.map (Check.Property.under base)) base
        (propertiesOfFields calls fields path) := by
  rw [propertiesOfFields_eq_mapM, propertiesOfFields_eq_mapM]
  apply placed_mapM
  intro field member
  rw [compile_extended_append (moves field member)]
  exact placed_map fun check => rfl

theorem checksOfParts_append {parts : List Schema}
    (moves : ∀ part ∈ parts, Schema.Moves calls part) (segment : Nat → Segment)
    (position : Nat) (base path : Path) :
    checksOfParts calls segment position parts (base ++ path) =
      placed (List.map (Check.under base)) base
        (checksOfParts calls segment position parts path) := by
  rw [checksOfParts_eq_mapM, checksOfParts_eq_mapM]
  apply placed_mapM
  intro part member
  exact compile_extended_append (moves part.1 (List.fst_mem_of_mem_zipIdx member)) base path _

end Lists

section Steps

variable {calls : Calls} (base path : Path)

theorem acceptedFallback_append (check : Check) (fallback : Value) :
    acceptedFallback (check.under base) fallback (base ++ path) =
      placed id base (acceptedFallback check fallback path) := by
  cases answer : check fallback with
  | ok value => simp only [acceptedFallback, Check.under, answer, Outcome.under_ok, placed, id]
  | error issues =>
      simp only [acceptedFallback, Check.under, answer, Outcome.under_error]
      rfl

theorem stepMoves_of_parts {step : Schema}
    (moves : ∀ part ∈ step.parts, Schema.Moves calls part) : Schema.StepMoves calls step := by
  intro base path
  cases step with
  | str name =>
      rw [checkOfStep, checkOfStep]
      cases BasicKind.ofName? name with
      | some kind => exact congrArg Except.ok (Check.basic_under base path kind)
      | none => exact Fault.at_append base path fun _ => rfl
  | function callable =>
      rw [checkOfStep, checkOfStep]
      exact congrArg Except.ok (Check.function_under base path calls callable)
  | step composite =>
      cases composite with
      | predicate test message detail =>
          rw [checkOfStep, checkOfStep]
          split
          · exact Fault.at_append base path fun _ => rfl
          · exact congrArg Except.ok (Check.predicate_under base path calls test message detail)
      | optional inner fallback =>
          have inside := moves inner (List.mem_singleton.mpr rfl) base path
          rw [checkOfStep_optional, checkOfStep_optional, inside]
          apply placed_bind
          intro check
          rw [acceptedFallback_append]
          apply placed_map
          intro default
          exact Check.optional_under base default check
      | enum options =>
          rw [checkOfStep, checkOfStep]
          cases literals : literalOptions options with
          | error fault =>
              exact Fault.at_append base path (literalOptions_static literals).placeless
          | ok items => exact congrArg Except.ok (Check.enum_under base path options items)
      | object fields =>
          have inside : ∀ field ∈ fields, Schema.Moves calls field.2 :=
            fun field member => moves field.2 (List.mem_map_of_mem member)
          rw [checkOfStep_object, checkOfStep_object, propertiesOfFields_append inside]
          apply placed_map
          exact Check.object_under base path
      | indexed entries =>
          cases listed : entries.items? with
          | none =>
              rw [checkOfStep_indexed_of_none _ _ listed, checkOfStep_indexed_of_none _ _ listed]
              exact Fault.at_append base path fun _ => rfl
          | some items =>
              rw [Schema.parts_indexed listed] at moves
              rw [checkOfStep_indexed _ _ listed, checkOfStep_indexed _ _ listed,
                checksOfParts_append moves]
              apply placed_map
              exact Check.indexed_under base path
      | oneOf branches =>
          by_cases empty : branches.items?.getD [] = []
          · rw [checkOfStep_oneOf_of_empty _ _ empty, checkOfStep_oneOf_of_empty _ _ empty]
            exact Fault.at_append base path fun _ => rfl
          · obtain ⟨first, rest, listed⟩ := Value.items_of_nonempty empty
            rw [Schema.parts_oneOf listed] at moves
            rw [checkOfStep_oneOf _ _ listed, checkOfStep_oneOf _ _ listed,
              checksOfParts_append moves]
            apply placed_map
            exact Check.oneOf_under base
  | _ =>
      rw [checkOfStep, checkOfStep]
      · exact Fault.at_append base path fun _ => rfl
      all_goals simp

end Steps

/-- Whatever a schema is made of, compiling it at a longer place answers the same, seen from
further out. -/
theorem compile_append (calls : Calls) (schema : Schema) (base path : Path) :
    compile calls schema (base ++ path) =
      placed (Check.under base) base (compile calls schema path) := by
  have everywhere := Schema.induction
    (P := Schema.Moves calls) (Q := Schema.StepMoves calls) ?_ ?_
  · exact everywhere.1 schema base path
  · intro schema _ moves base path
    rw [compile_eq, compile_eq]
    cases arranging : Chain.arrange schema.steps with
    | error fault =>
        rw [checkOfSteps_of_fault _ _ arranging, checkOfSteps_of_fault _ _ arranging]
        exact Fault.at_append base path (Chain.arrange_static arranging).placeless
    | ok arranged =>
        rw [checkOfSteps_of_arranged _ _ arranging, checkOfSteps_of_arranged _ _ arranging,
          checksOfSteps_append (moves arranged arranging)]
        apply placed_map
        exact Check.chain_under base
  · exact fun step moves => stepMoves_of_parts moves

theorem compile_from_root (calls : Calls) (schema : Schema) (path : Path) :
    compile calls schema path = placed (Check.under path) path (compile calls schema []) := by
  have moved := compile_append calls schema path []
  rwa [List.append_nil] at moved

/-- A compiled check is the one of the root, moved. -/
theorem eq_under_of_compiled {calls : Calls} {schema : Schema} {path : Path} {check : Check}
    (compiled : compile calls schema path = .ok check) :
    ∃ root, compile calls schema [] = .ok root ∧ check = root.under path := by
  rw [compile_from_root] at compiled
  cases compiling : compile calls schema [] with
  | error defect =>
      rw [compiling] at compiled
      cases compiled
  | ok root =>
      rw [compiling] at compiled
      exact ⟨root, rfl, (Except.ok.inj compiled).symm⟩

/-- A callable that answers what a check answers, installed as a step, is that check moved there. -/
theorem Check.function_of_check {calls : Calls} {callable : Callable} {check : Check}
    (answers : ∀ value, calls callable value = .outcome (check value)) (path : Path) :
    Check.function calls callable path = check.under path := by
  funext value
  simp only [Check.function, answers value, Check.under]

/-- At any place a schema compiles if and only if it does at the root. A defect then has the same
wording below that place, and a check answers what the one of the root answers, moved there, which
is what the check of the root answers as a function step of that place. -/
theorem compile_equivariant (calls : Calls) (schema : Schema) (path : Path) :
    match compile calls schema path, compile calls schema [] with
    | .error defect, .error root =>
        defect.path = path ++ root.path ∧
          defect.fault.message = root.fault.message ∧
          defect.fault.detail = root.fault.detail.map (Detail.under path)
    | .ok check, .ok root =>
        (∀ value, check value = (root value).under path) ∧
          ∀ (others : Calls) (callable : Callable),
            (∀ value, others callable value = .outcome (root value)) →
              ∀ value, Check.function others callable path value = check value
    | _, _ => False := by
  rw [compile_from_root]
  cases compile calls schema [] with
  | error root =>
      have wording := root.fault.message_under path
      have detail := root.fault.detail_under path
      exact ⟨rfl, wording, detail⟩
  | ok root =>
      refine ⟨fun value => rfl, ?_⟩
      intro others callable answers value
      rw [Check.function_of_check answers]

end SchemaCheck
