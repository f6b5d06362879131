import SchemaCheck.Chain

/-!
Splicing and merging never make the steps of a chain larger, so compiling them ends.
-/

namespace SchemaCheck

theorem sizeOf_append {α : Type} [SizeOf α] (left right : List α) :
    sizeOf (left ++ right) + 1 = sizeOf left + sizeOf right := by
  induction left with
  | nil =>
      simp only [List.nil_append, List.nil.sizeOf_spec]
      omega
  | cons head tail ih =>
      simp only [List.cons_append, List.cons.sizeOf_spec]
      omega

theorem sizeOf_pos {α : Type} [SizeOf α] (items : List α) : 0 < sizeOf items := by
  cases items with
  | nil => exact Nat.one_pos
  | cons head tail =>
      simp only [List.cons.sizeOf_spec]
      omega

theorem sizeOf_member {step : Schema} {steps : List Schema} (member : step ∈ steps) :
    sizeOf step + 2 ≤ sizeOf steps := by
  induction steps with
  | nil => cases member
  | cons head rest ih =>
      simp only [List.cons.sizeOf_spec]
      rcases List.mem_cons.mp member with rfl | later
      · have bound := sizeOf_pos rest
        omega
      · have bound := ih later
        omega

theorem Value.sizeOf_items {value : Value} {items : List Value}
    (shape : value.items? = some items) : sizeOf items < sizeOf value := by
  cases value <;> simp only [Value.items?, Option.some.injEq, reduceCtorEq] at shape
  all_goals
    subst shape
    simp

namespace Schema

theorem sizeOf_splice_le (schema : Schema) :
    sizeOf (steps.splice schema) ≤ sizeOf schema + 2 := by
  unfold steps.splice
  split
  · simp only [Value.list.sizeOf_spec]
    omega
  · simp only [List.cons.sizeOf_spec, List.nil.sizeOf_spec]
    omega

theorem sizeOf_flatMap_splice_le (schemas : List Schema) :
    sizeOf (schemas.flatMap steps.splice) ≤ sizeOf schemas := by
  induction schemas with
  | nil => exact Nat.le_refl _
  | cons schema rest ih =>
      have head := sizeOf_splice_le schema
      have both := sizeOf_append (steps.splice schema) (rest.flatMap steps.splice)
      simp only [List.flatMap_cons, List.cons.sizeOf_spec]
      omega

theorem sizeOf_steps_le (schema : Schema) : sizeOf schema.steps ≤ sizeOf schema + 2 := by
  unfold steps
  split
  · rename_i schemas
    have spliced := sizeOf_flatMap_splice_le schemas
    simp only [Value.list.sizeOf_spec]
    omega
  · simp only [List.cons.sizeOf_spec, List.nil.sizeOf_spec]
    omega

theorem sizeOf_value_pos (schema : Schema) : 0 < sizeOf schema := by
  cases schema <;> exact Nat.lt_of_lt_of_le Nat.one_pos (by simp [Nat.add_assoc])

theorem sizeOf_objectFields_le (schema : Schema) :
    sizeOf schema.objectFields ≤ sizeOf schema := by
  unfold objectFields
  split
  · simp only [Value.step.sizeOf_spec, Step.object.sizeOf_spec]
    omega
  · exact sizeOf_value_pos schema

theorem sizeOf_enumOptions_le {schema : Schema} {options : List Value}
    (success : literalOptions schema.enumOptions = .ok options) :
    sizeOf options + 3 ≤ sizeOf schema := by
  have items : schema.enumOptions.items? = some options := by
    unfold literalOptions at success
    cases shape : schema.enumOptions.items? with
    | none => rw [shape] at success; cases success
    | some items =>
        rw [shape] at success
        dsimp only at success
        split at success
        · cases success; rfl
        · cases success
  unfold enumOptions at items
  split at items
  · have smaller := Value.sizeOf_items items
    simp only [Value.step.sizeOf_spec, Step.enum.sizeOf_spec]
    omega
  · cases items

end Schema

namespace Chain

theorem sizeOf_flatMap_objectFields (steps : List Schema) :
    sizeOf (steps.flatMap Schema.objectFields) + 2 * steps.length ≤ sizeOf steps := by
  induction steps with
  | nil => exact Nat.le_refl _
  | cons step rest ih =>
      have head := Schema.sizeOf_objectFields_le step
      have both := sizeOf_append step.objectFields (rest.flatMap Schema.objectFields)
      simp only [List.flatMap_cons, List.cons.sizeOf_spec, List.length_cons]
      omega

/-- What is put together of two results is there if and only if both are. -/
theorem combined_eq_ok {α β γ : Type} {first : Except Fault α} {second : Except Fault β}
    {combine : α → β → γ} {whole : γ} :
    (do
      let own ← first
      let later ← second
      return combine own later) = .ok whole ↔
      ∃ own later, first = .ok own ∧ second = .ok later ∧ whole = combine own later := by
  cases first with
  | error fault => simp [bind, Except.bind]
  | ok own =>
      cases second with
      | error fault => simp [bind, Except.bind]
      | ok later => simp [bind, Except.bind, pure, Except.pure, eq_comm]

theorem allOptions_cons {step : Schema} {rest : List Schema} {options : List Value} :
    allOptions (step :: rest) = .ok options ↔
      ∃ own later, literalOptions step.enumOptions = .ok own ∧ allOptions rest = .ok later ∧
        options = own ++ later :=
  combined_eq_ok

theorem sizeOf_allOptions {steps : List Schema} {options : List Value}
    (success : allOptions steps = .ok options) :
    sizeOf options + 5 * steps.length ≤ sizeOf steps := by
  induction steps generalizing options with
  | nil => cases success; exact Nat.le_refl _
  | cons step rest ih =>
      obtain ⟨own, later, first, others, rfl⟩ := allOptions_cons.mp success
      have head := Schema.sizeOf_enumOptions_le first
      have tail := ih others
      have both := sizeOf_append own later
      simp only [List.cons.sizeOf_spec, List.length_cons]
      omega

theorem classify_cons {step : Schema} {rest : List Schema} {classified : List (Kind × Schema)} :
    classify (step :: rest) = .ok classified ↔
      ∃ kind later, step.kind = .ok kind ∧ classify rest = .ok later ∧
        classified = (kind, step) :: later :=
  combined_eq_ok

/-- Classifying keeps every step in its place. -/
theorem map_snd_of_classify {steps : List Schema} {classified : List (Kind × Schema)}
    (success : classify steps = .ok classified) : classified.map (·.2) = steps := by
  induction steps generalizing classified with
  | nil => cases success; rfl
  | cons step rest ih =>
      obtain ⟨kind, later, _, others, rfl⟩ := classify_cons.mp success
      simp only [List.map_cons, ih others]

theorem sizeOf_mergeRun {run : List (Kind × Schema)} {merged : List Schema}
    (success : mergeRun run = .ok merged) : sizeOf merged ≤ sizeOf (run.map (·.2)) := by
  unfold mergeRun at success
  dsimp only at success
  split at success
  · rename_i first second rest
    cases success
    have fields := sizeOf_flatMap_objectFields
      ((((.object, first) :: second :: rest : List (Kind × Schema))).map (·.2))
    simp only [List.length_map, List.length_cons] at fields
    simp only [List.cons.sizeOf_spec, List.nil.sizeOf_spec, Value.step.sizeOf_spec,
      Step.object.sizeOf_spec]
    omega
  · rename_i first second rest
    cases gathered : allOptions
        ((((.enum, first) :: second :: rest : List (Kind × Schema))).map (·.2)) with
    | error fault => rw [gathered] at success; cases success
    | ok options =>
        rw [gathered] at success
        cases success
        have listed := sizeOf_allOptions gathered
        simp only [List.length_map, List.length_cons] at listed
        simp only [List.cons.sizeOf_spec, List.nil.sizeOf_spec, Value.step.sizeOf_spec,
          Step.enum.sizeOf_spec, Value.list.sizeOf_spec]
        omega
  · cases success
    exact Nat.le_refl _

theorem mergeRuns_cons {run : List (Kind × Schema)} {rest : List (List (Kind × Schema))}
    {merged : List Schema} :
    mergeRuns (run :: rest) = .ok merged ↔
      ∃ own later, mergeRun run = .ok own ∧ mergeRuns rest = .ok later ∧ merged = own ++ later :=
  combined_eq_ok

theorem sizeOf_mergeRuns {groups : List (List (Kind × Schema))} {merged : List Schema}
    (success : mergeRuns groups = .ok merged) :
    sizeOf merged ≤ sizeOf (groups.flatten.map (·.2)) := by
  induction groups generalizing merged with
  | nil => cases success; exact Nat.le_refl _
  | cons run rest ih =>
      obtain ⟨own, later, first, others, rfl⟩ := mergeRuns_cons.mp success
      have head := sizeOf_mergeRun first
      have tail := ih others
      have output := sizeOf_append own later
      have input := sizeOf_append (run.map (·.2)) (rest.flatten.map (·.2))
      simp only [List.flatten_cons, List.map_append]
      omega

theorem sizeOf_merge {steps merged : List Schema} (success : merge steps = .ok merged) :
    sizeOf merged ≤ sizeOf steps := by
  unfold merge at success
  cases first : classify steps with
  | error fault => rw [first] at success; cases success
  | ok classified =>
      rw [first] at success
      have bound : sizeOf merged ≤ sizeOf ((runs sameKind classified).flatten.map (·.2)) :=
        sizeOf_mergeRuns success
      rw [runs_flatten, map_snd_of_classify first] at bound
      exact bound

theorem sizeOf_arrange {steps arranged : List Schema} (success : arrange steps = .ok arranged) :
    sizeOf arranged ≤ sizeOf steps := by
  unfold arrange at success
  split at success
  · cases success
  · rename_i step
    cases opening : checkOpening step with
    | error fault => rw [opening] at success; cases success
    | ok _ =>
        rw [opening] at success
        cases success
        exact Nat.le_refl _
  · rename_i first rest _
    cases opening : checkOpening first with
    | error fault => rw [opening] at success; cases success
    | ok _ =>
        rw [opening] at success
        cases merging : merge (first :: rest) with
        | error fault => rw [merging] at success; cases success
        | ok merged =>
            rw [merging] at success
            cases neighbours : checkNeighbours merged with
            | error fault =>
                simp only [bind, Except.bind, neighbours] at success
                cases success
            | ok _ =>
                simp only [bind, Except.bind, neighbours, pure, Except.pure,
                  Except.ok.injEq] at success
                exact success ▸ sizeOf_merge merging

end Chain

end SchemaCheck
