import SchemaCheck.Value.Report

/-!
What a check answers: an accepted value, or the issues it found. Collecting many outcomes never
stops early, and a rejection counts as one even if it lists no issue.
-/

namespace SchemaCheck

abbrev Outcome (α : Type) := Except (List Issue) α

namespace Outcome

variable {α : Type}

/-- One issue for each message, all at one place. -/
def fail (messages : List String) (path : Path) (detail : Option Detail) : Outcome α :=
  .error (messages.map fun message => ⟨path, message, detail⟩)

def issues : Outcome α → List Issue
  | .ok _ => []
  | .error issues => issues

/-- The same outcome seen from further out. -/
def under (base : Path) : Outcome α → Outcome α
  | .ok value => .ok value
  | .error issues => .error (issues.map (Issue.under base))

/-- The outcome seen from a place further out that is written down in any of its forms; nothing is
moved where that is the root. -/
def rebased (place : Path.Shorthand) (outcome : Outcome α) : Outcome α :=
  if place.path.isEmpty then outcome else outcome.under place.path

/-- All values, or else the issues of every rejection in order. -/
def collect : List (Outcome α) → Outcome (List α)
  | [] => .ok []
  | .ok value :: rest =>
      match collect rest with
      | .ok values => .ok (value :: values)
      | .error issues => .error issues
  | .error issues :: rest =>
      match collect rest with
      | .ok _ => .error issues
      | .error more => .error (issues ++ more)

/-- The first acceptance, or else the issues of every rejection in order. -/
def first : List (Outcome α) → Outcome α
  | [] => .error []
  | .ok value :: _ => .ok value
  | .error issues :: rest =>
      match first rest with
      | .ok value => .ok value
      | .error more => .error (issues ++ more)

@[simp] theorem under_ok (base : Path) (value : α) :
    under base (.ok value) = .ok value := rfl

@[simp] theorem under_error (base : Path) (issues : List Issue) :
    under base (.error issues : Outcome α) = .error (issues.map (Issue.under base)) := rfl

theorem under_nil (outcome : Outcome α) : outcome.under [] = outcome := by
  cases outcome with
  | ok value => rfl
  | error issues =>
      have same : Issue.under [] = id := funext Issue.under_nil
      simp only [under_error, same, List.map_id]

theorem rebased_eq_under (place : Path.Shorthand) (outcome : Outcome α) :
    outcome.rebased place = outcome.under place.path := by
  unfold rebased
  split
  · rename_i root
    rw [List.isEmpty_iff.mp root, under_nil]
  · rfl

theorem under_under (outer inner : Path) (outcome : Outcome α) :
    (outcome.under inner).under outer = outcome.under (outer ++ inner) := by
  cases outcome with
  | ok value => rfl
  | error issues =>
      simp only [under_error, List.map_map]
      congr 2
      exact funext (Issue.under_under outer inner)

end Outcome

end SchemaCheck
