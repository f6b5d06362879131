import SchemaCheck.Complaint
import SchemaCheck.Proofs.KeyOrder.Reordered

/-!
Outcomes up to the order of keys. Two outcomes agree if both accept, with related values, or both
reject, issue by issue at the same place in the same words; what an issue says beyond that may
differ in the order of keys, and so may the list of keys that should not have been there. Everything
that combines outcomes preserves this.
-/

namespace SchemaCheck

mutual

/-- The details are the same up to the order of keys and of the values that are listed as
unexpected. -/
inductive Detail.Agrees : Detail → Detail → Prop
  | same (detail : Detail) : Detail.Agrees detail detail
  | found {left right : Value} : left.Reordered right → Detail.Agrees (.found left) (.found right)
  | expected {left right : Value} :
      left.Reordered right → Detail.Agrees (.expected left) (.expected right)
  | unexpected {left right : Value} :
      left.Reordered right → Detail.Agrees (.unexpected left) (.unexpected right)
  | listed {lefts middle rights : List Value} :
      List.Forall₂ Value.Reordered lefts middle → middle.Perm rights →
      Detail.Agrees (.unexpected (.list lefts)) (.unexpected (.list rights))
  | errors {lefts rights : List Issue} :
      List.Forall₂ Issue.Agrees lefts rights → Detail.Agrees (.errors lefts) (.errors rights)

inductive Issue.Agrees : Issue → Issue → Prop
  | placed (path : Path) (message : String) {left right : Option Detail} :
      Option.Rel Detail.Agrees left right →
      Issue.Agrees ⟨path, message, left⟩ ⟨path, message, right⟩

end

theorem Issue.Agrees.same (issue : Issue) : Issue.Agrees issue issue := by
  rcases issue with ⟨path, message, detail⟩
  refine .placed path message ?_
  cases detail with
  | none => exact .none
  | some detail => exact .some (.same detail)

theorem Issue.Agrees.under {left right : Issue} (agrees : left.Agrees right) (base : Path) :
    (left.under base).Agrees (right.under base) := by
  cases agrees with
  | placed path message details => exact .placed (base ++ path) message details

namespace Outcome

variable {α β γ δ : Type} {R : α → β → Prop} {S : γ → δ → Prop}

inductive Agrees (R : α → β → Prop) : Outcome α → Outcome β → Prop
  | ok {left : α} {right : β} : R left right → Agrees R (.ok left) (.ok right)
  | error {lefts rights : List Issue} :
      List.Forall₂ Issue.Agrees lefts rights → Agrees R (.error lefts) (.error rights)

namespace Agrees

variable {left : Outcome α} {right : Outcome β}

theorem map (agrees : Agrees R left right) {change : α → γ} {other : β → δ}
    (related : ∀ first second, R first second → S (change first) (other second)) :
    Agrees S (left.map change) (right.map other) := by
  cases agrees with
  | ok values => exact .ok (related _ _ values)
  | error issues => exact .error issues

theorem bind (agrees : Agrees R left right) {next : α → Outcome γ} {other : β → Outcome δ}
    (related : ∀ first second, R first second → Agrees S (next first) (other second)) :
    Agrees S (left >>= next) (right >>= other) := by
  cases agrees with
  | ok values => exact related _ _ values
  | error issues => exact .error issues

theorem under (agrees : Agrees R left right) (base : Path) :
    Agrees R (left.under base) (right.under base) := by
  cases agrees with
  | ok values => exact .ok values
  | error issues =>
      apply error
      rw [List.forall₂_map_left_iff, List.forall₂_map_right_iff]
      exact issues.imp fun _ _ agrees => agrees.under base

theorem collect {lefts : List (Outcome α)} {rights : List (Outcome β)}
    (each : List.Forall₂ (Agrees R) lefts rights) :
    Agrees (List.Forall₂ R) (Outcome.collect lefts) (Outcome.collect rights) := by
  induction each with
  | nil => exact .ok .nil
  | @cons _ _ lefts rights first _ ih =>
      generalize collected : Outcome.collect lefts = left,
        others : Outcome.collect rights = right at ih
      cases first with
      | ok values =>
          rw [Outcome.collect, Outcome.collect, collected, others]
          cases ih with
          | ok later => exact .ok (.cons values later)
          | error issues => exact .error issues
      | error issues =>
          rw [Outcome.collect, Outcome.collect, collected, others]
          cases ih with
          | ok later => exact .error issues
          | error more => exact .error (List.rel_append issues more)

theorem iff_related : Agrees R left right ↔ Related Issue.Agrees R left right := by
  constructor
  · intro agrees
    cases agrees with
    | ok values => exact .ok values
    | error issues => exact .error issues
  · intro related
    cases related with
    | ok values => exact .ok values
    | error issues => exact .error issues

theorem first {lefts : List (Outcome α)} {rights : List (Outcome β)}
    (each : List.Forall₂ (Agrees R) lefts rights) :
    Agrees R (Outcome.first lefts) (Outcome.first rights) :=
  iff_related.mpr (Related.first (each.imp fun _ _ => iff_related.mp))

end Agrees

end Outcome

/-- Objections in the same words with details that agree. -/
theorem Complaint.reject_agrees {α β : Type} {R : α → β → Prop} (left right : Complaint)
    (message : left.message = right.message)
    (detail : Option.Rel Detail.Agrees left.detail right.detail)
    (path : Path) : Outcome.Agrees R (left.reject path) (right.reject path) := by
  apply Outcome.Agrees.error
  rw [Complaint.issueAt, Complaint.issueAt, message]
  exact .cons (.placed path _ detail) .nil

theorem Complaint.reject_agrees_self {α β : Type} {R : α → β → Prop} (complaint : Complaint)
    (path : Path) :
    Outcome.Agrees R (complaint.reject path) (complaint.reject path) :=
  .error (.cons (.same _) .nil)

/-- The same exception, values up to the order of keys, or outcomes that agree. -/
inductive Reply.Agrees : Reply → Reply → Prop
  | value {left right : Value} : left.Reordered right → Reply.Agrees (.value left) (.value right)
  | outcome {left right : Outcome Value} :
      Outcome.Agrees Value.Reordered left right → Reply.Agrees (.outcome left) (.outcome right)
  | raised (exception : Raised) : Reply.Agrees (.raised exception) (.raised exception)

/-- The callable does not care for the order of keys. -/
def Calls.IgnoresOrder (calls : Calls) (callable : Callable) : Prop :=
  ∀ left right : Value, left.Reordered right →
    Reply.Agrees (calls callable left) (calls callable right)

end SchemaCheck
