import SchemaCheck.Kind
import SchemaCheck.Outcome

/-!
What the built-in checks object to in a value, each objection with the data that shows it and the
wording in one place.
-/

namespace SchemaCheck

inductive Complaint
  | notBasic (kind : BasicKind)
  | predicateFailed (message : String) (detail : Option Detail)
  | predicateRaised (exception : Raised)
  | functionRaised (exception : Raised)
  | noOutcome (value : Value)
  | notAnOption (options : Value)
  | notObject
  | missing (names : List String)
  | surplus (keys : List Value)
  | notArray
  | wrongLength (expected found : Nat)

namespace Complaint

def basicMessage : BasicKind → String
  | .array => "Not an array"
  | .boolean => "Not a boolean"
  | .number => "Not a number"
  | .integer => "Not an integer"
  | .string => "Not a string"
  | .nonEmpty => "Is empty"

def lengthMessage (expected : Nat) : String :=
  if expected = 1 then "Expected array with one entry"
  else "Expected array with " ++ toString expected ++ " entries"

def message : Complaint → String
  | notBasic kind => basicMessage kind
  | predicateFailed message _ => message
  | predicateRaised _ => "Predicate function threw an error"
  | functionRaised _ => "Validation function threw an error"
  | noOutcome _ => "Validation function did not return a Result"
  | notAnOption _ => "Unexpected value"
  | notObject => "Not an object"
  | missing _ => "Missing expected properties"
  | surplus _ => "Found unexpected properties"
  | notArray => "Not an array"
  | wrongLength expected _ => lengthMessage expected

def detail : Complaint → Option Detail
  | notBasic _ => none
  | predicateFailed _ detail => detail
  | predicateRaised exception => some (.caught exception)
  | functionRaised exception => some (.caught exception)
  | noOutcome value => some (.found value)
  | notAnOption options => some (.expected options)
  | notObject => none
  | missing names => some (.expected (.list (names.map .str)))
  | surplus keys => some (.unexpected (.list keys))
  | notArray => none
  | wrongLength _ found => some (.found (.int found))

def issueAt (path : Path) (complaint : Complaint) : Issue :=
  ⟨path, complaint.message, complaint.detail⟩

/-- A rejection for one reason. -/
def reject {α : Type} (path : Path) (complaint : Complaint) : Outcome α :=
  .error [complaint.issueAt path]

theorem reject_under {α : Type} (base path : Path) (complaint : Complaint) :
    (complaint.reject path : Outcome α).under base = complaint.reject (base ++ path) := rfl

end Complaint

end SchemaCheck
