import SchemaCheck.Kind
import SchemaCheck.Value.Report

/-!
What can be wrong with a schema. A fault is a cause with the data that shows it, and all wording is
in one place; a defect is a fault together with the place of the part that has it.
-/

namespace SchemaCheck

inductive Fault
  | unknownBasic (name : String)
  | unclassified (schema : Schema)
  | unrecognised (schema : Schema)
  | emptyChain
  | opensWithRefinement (kind : BasicKind)
  | cannotFollow (earlier later : Kind)
  | predicateWithoutMessage
  | fallbackRejected (issues : List Issue)
  | entriesNotList (entries : Value)
  | branchesNotList (branches : Value)
  | optionsNotList (options : Value)
  | optionsNotLiteral (options : List Value)

def quotedName (name : String) : String :=
  "`" ++ name ++ "`"

namespace Fault

def message : Fault → String
  | unknownBasic _ => "Unknown basic validator"
  | unclassified _ => "Cannot determine type of validator step"
  | unrecognised _ => "Could not compile unrecognised validator step"
  | emptyChain => "Cannot compile an empty chain"
  | opensWithRefinement kind =>
      "Validator type " ++ quotedName kind.name ++ " cannot appear at the start of a chain"
  | cannotFollow earlier later =>
      "Validator type " ++ quotedName later.name ++ " cannot follow " ++ quotedName earlier.name
  | predicateWithoutMessage => "Predicate validator requires an error message"
  | fallbackRejected _ => "Fallback for optional value does not meet its own requirements"
  | entriesNotList _ => "`Indexed` expects a list of entries"
  | branchesNotList _ => "`OneOf` expects a non-empty list of branches"
  | optionsNotList _ => "`Enum` expects a list of options as an argument"
  | optionsNotLiteral _ => "`Enum` can only accept literal values as options"

def detail : Fault → Option Detail
  | unknownBasic name => some (.found (.str name))
  | unclassified schema => some (.found schema)
  | unrecognised schema => some (.found schema)
  | emptyChain => none
  | opensWithRefinement _ => none
  | cannotFollow _ _ => none
  | predicateWithoutMessage => none
  | fallbackRejected issues => some (.errors issues)
  | entriesNotList entries => some (.found entries)
  | branchesNotList branches => some (.found branches)
  | optionsNotList options => some (.unexpected (.list [options]))
  | optionsNotLiteral options => some (.unexpected (.list options))

/-- The same fault seen from further out; only a rejected fallback speaks of places. -/
def under (base : Path) : Fault → Fault
  | fallbackRejected issues => fallbackRejected (issues.map (Issue.under base))
  | fault => fault

theorem message_under (base : Path) (fault : Fault) :
    (fault.under base).message = fault.message := by
  cases fault <;> rfl

end Fault

structure Defect where
  path : Path
  fault : Fault

namespace Defect

def report (limit : Option Nat) (defect : Defect) : String :=
  SchemaCheck.report limit defect.path defect.fault.message defect.fault.detail

end Defect

end SchemaCheck
