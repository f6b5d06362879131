import SchemaCheck.Proofs.Outcome

/-!
Rebasing and collecting. Places compose, however they are written down, and it makes no difference
whether an outcome is moved before or after it is transformed, collected with others or put into
words.
-/

namespace SchemaCheck

namespace Outcome

variable {α β : Type}

theorem rebased_rebased (place further : Path.Shorthand) (outcome : Outcome α) :
    (outcome.rebased place).rebased further =
      outcome.rebased (.segments (further.path ++ place.path)) := by
  simp only [rebased_eq_under, under_under, Path.Shorthand.path]

theorem map_rebased (place : Path.Shorthand) (outcome : Outcome α) (change : α → β) :
    (outcome.rebased place).map change = Outcome.rebased place (outcome.map change) := by
  simp only [rebased_eq_under, map_under]

theorem collect_rebased (place : Path.Shorthand) (outcomes : List (Outcome α)) :
    collect (outcomes.map (rebased place)) = (collect outcomes).rebased place := by
  have moved : rebased place = under (α := α) place.path := funext (rebased_eq_under place)
  rw [moved, rebased_eq_under, collect_under]

/-- Two groups together: all values if both were accepted, else the issues of both. -/
theorem collect_groups (front back : List (Outcome α)) :
    collect (front ++ back) =
      match collect front, collect back with
      | .ok values, .ok more => .ok (values ++ more)
      | first, second => .error (first.issues ++ second.issues) := by
  rw [collect_append]
  cases collect front <;> cases collect back <;> simp [collect, issues, Except.map]

theorem reports_rebased (limit : Option Nat) (place : Path.Shorthand) (outcome : Outcome α) :
    (outcome.rebased place).issues.map (Issue.report limit) =
      outcome.issues.map fun issue => place.path.printed ++ issue.report limit := by
  rw [rebased_eq_under, issues_under, List.map_map]
  apply List.map_congr_left
  intro issue _
  exact Issue.report_under limit place.path issue

end Outcome

/-- Moving twice is moving along both ways at once. Moving commutes with transforming what was
accepted, with collecting, and with wording but for the way there, which each text then opens with.
Collecting may be done in groups, of which one that holds a rejection is rejected, even if that
lists no issue. -/
theorem rebasing_and_collecting_laws {α β : Type} (outcome : Outcome α)
    (front back : List (Outcome α))
    (place further : Path.Shorthand) (change : α → β) (limit : Option Nat) :
    (outcome.rebased place).rebased further =
        outcome.rebased (.segments (further.path ++ place.path)) ∧
      (outcome.rebased place).map change = Outcome.rebased place (outcome.map change) ∧
      Outcome.collect (front.map (Outcome.rebased place)) = (Outcome.collect front).rebased place ∧
      Outcome.collect (front ++ back) =
        (match Outcome.collect front, Outcome.collect back with
        | .ok values, .ok more => .ok (values ++ more)
        | first, second => .error (first.issues ++ second.issues)) ∧
      (∀ issues, Outcome.collect front = .error issues ↔
        (∃ rejected ∈ front, rejected.Rejects) ∧ issues = front.flatMap Outcome.issues) ∧
      (outcome.rebased place).issues.map (Issue.report limit) =
        outcome.issues.map fun issue => place.path.printed ++ issue.report limit :=
  ⟨Outcome.rebased_rebased place further outcome, Outcome.map_rebased place outcome change,
    Outcome.collect_rebased place front, Outcome.collect_groups front back,
    fun _ => Outcome.collect_eq_error_iff, Outcome.reports_rebased limit place outcome⟩

example : Outcome.collect [.ok 1, (.error [] : Outcome Nat), .ok 2] = .error [] := rfl

end SchemaCheck
