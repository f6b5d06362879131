import SchemaCheck.Proofs.Parts

/-!
Faults that are found without checking any value. They speak of no place. Arranging the steps of a
chain raises no other kind, since it neither compiles nor checks anything.
-/

namespace SchemaCheck

/-- A fault that speaks of no place is the same from everywhere. -/
def Fault.IsPlaceless (fault : Fault) : Prop :=
  ∀ base, fault.under base = fault

/-- A fault of the schema as it is written: it takes no check to find it. -/
def Fault.IsStatic (fault : Fault) : Prop :=
  ∀ issues, fault ≠ .fallbackRejected issues

theorem Fault.IsStatic.placeless {fault : Fault} (static : fault.IsStatic) : fault.IsPlaceless := by
  intro base
  cases fault with
  | fallbackRejected issues => exact absurd rfl (static issues)
  | _ => rfl

section Static

variable {fault : Fault}

theorem Schema.kind_static {schema : Schema} (failure : schema.kind = .error fault) :
    fault.IsStatic := by
  unfold Schema.kind at failure
  split at failure
  · split at failure
    · cases failure
    · cases failure
      simp [Fault.IsStatic]
  · cases failure
  · cases failure
  · cases failure
    simp [Fault.IsStatic]

theorem literalOptions_static {options : Value}
    (failure : literalOptions options = .error fault) : fault.IsStatic := by
  unfold literalOptions at failure
  split at failure
  · cases failure
    simp [Fault.IsStatic]
  · dsimp only at failure
    split at failure
    · cases failure
    · cases failure
      simp [Fault.IsStatic]

namespace Chain

theorem classify_static {steps : List Schema} (failure : classify steps = .error fault) :
    fault.IsStatic := by
  induction steps with
  | nil => cases failure
  | cons step rest ih =>
      rcases bind_eq_error.mp failure with unknown | ⟨kind, _, others⟩
      · exact Schema.kind_static unknown
      · rcases bind_eq_error.mp others with later | ⟨classified, _, impossible⟩
        · exact ih later
        · cases impossible

theorem allOptions_static {steps : List Schema} (failure : allOptions steps = .error fault) :
    fault.IsStatic := by
  rcases appended_eq_error (fun step => literalOptions step.enumOptions) allOptions rfl
    (fun _ _ => rfl)
    failure with ⟨step, _, own⟩
  exact literalOptions_static own

theorem mergeRun_static {run : List (Kind × Schema)} (failure : mergeRun run = .error fault) :
    fault.IsStatic := by
  unfold mergeRun at failure
  dsimp only at failure
  split at failure
  · cases failure
  · rcases bind_eq_error.mp failure with own | ⟨options, _, impossible⟩
    · exact allOptions_static own
    · cases impossible
  · cases failure

theorem mergeRuns_static {groups : List (List (Kind × Schema))}
    (failure : mergeRuns groups = .error fault) : fault.IsStatic := by
  rcases appended_eq_error mergeRun mergeRuns rfl (fun _ _ => rfl) failure with ⟨run, _, own⟩
  exact mergeRun_static own

theorem merge_static {steps : List Schema} (failure : merge steps = .error fault) :
    fault.IsStatic := by
  rcases bind_eq_error.mp failure with unknown | ⟨classified, _, merging⟩
  · exact classify_static unknown
  · exact mergeRuns_static merging

theorem checkOpening_static {step : Schema} (failure : checkOpening step = .error fault) :
    fault.IsStatic := by
  unfold checkOpening at failure
  split at failure
  · cases failure
    simp [Fault.IsStatic]
  · cases failure

theorem checkNeighbours_static {steps : List Schema}
    (failure : checkNeighbours steps = .error fault) : fault.IsStatic := by
  rcases bind_eq_error.mp failure with unknown | ⟨classified, _, clashing⟩
  · exact classify_static unknown
  · split at clashing
    · cases clashing
      simp [Fault.IsStatic]
    · cases clashing

theorem arrange_static {steps : List Schema} (failure : arrange steps = .error fault) :
    fault.IsStatic := by
  unfold arrange at failure
  split at failure
  · cases failure
    simp [Fault.IsStatic]
  · rcases bind_eq_error.mp failure with opening | ⟨_, _, impossible⟩
    · exact checkOpening_static opening
    · cases impossible
  · rcases bind_eq_error.mp failure with opening | ⟨_, _, inside⟩
    · exact checkOpening_static opening
    · rcases bind_eq_error.mp inside with merging | ⟨merged, _, neighbours⟩
      · exact merge_static merging
      · rcases bind_eq_error.mp neighbours with clash | ⟨_, _, impossible⟩
        · exact checkNeighbours_static clash
        · cases impossible

end Chain

end Static

end SchemaCheck
