import SchemaCheck.Value.Printed

/-!
The text of an issue: where it stands, its message, and its detail behind a word that says how to
read it. Issues inside a detail follow on lines of their own.
-/

namespace SchemaCheck

mutual

def Detail.report (limit : Option Nat) : Detail → String
  | .found value => ", found: " ++ value.printed limit
  | .expected values => ", expected: " ++ values.printedRun limit
  | .unexpected values => ", unexpected: " ++ values.printedRun limit
  | .caught exception => ", inner error: " ++ exception.typeName ++ ": " ++ exception.text
  | .errors [] => ""
  | .errors issues => ":\n  " ++ String.intercalate "\n  " (Issue.reports limit issues)

def Detail.reportOption (limit : Option Nat) : Option Detail → String
  | none => ""
  | some detail => detail.report limit

def Issue.reports (limit : Option Nat) : List Issue → List String
  | [] => []
  | ⟨path, message, detail⟩ :: tail =>
      (path.printed ++ message ++ Detail.reportOption limit detail) :: Issue.reports limit tail

end

/-- The text of a message at a place. -/
def report (limit : Option Nat) (path : Path) (message : String) (detail : Option Detail) :
    String :=
  path.printed ++ message ++ Detail.reportOption limit detail

def Issue.report (limit : Option Nat) (issue : Issue) : String :=
  SchemaCheck.report limit issue.path issue.message issue.detail

/-- The text of a failure with several issues, one to a line. -/
def failureReport (limit : Option Nat) (issues : List Issue) : String :=
  String.intercalate "\n" (Issue.reports limit issues)

theorem Issue.reports_eq_map (limit : Option Nat) (issues : List Issue) :
    Issue.reports limit issues = issues.map (Issue.report limit) := by
  induction issues with
  | nil => rfl
  | cons issue rest ih =>
      obtain ⟨path, message, detail⟩ := issue
      rw [Issue.reports, ih]
      rfl

/-- Moving an issue inwards puts the way there in front of its text. -/
theorem Issue.report_under (limit : Option Nat) (base : Path) (issue : Issue) :
    (issue.under base).report limit = base.printed ++ issue.report limit := by
  simp only [Issue.report, SchemaCheck.report, Issue.under, Path.printed_append,
    String.append_assoc]

end SchemaCheck
