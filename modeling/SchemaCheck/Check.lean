import SchemaCheck.Calls
import SchemaCheck.Complaint
import SchemaCheck.Entries
import SchemaCheck.Value.Literal

/-!
The checks that steps turn into. Each takes what has been compiled of its parts and the place its
complaints are about.
-/

namespace SchemaCheck

/-- Beyond this, floats no longer tell neighbouring whole numbers apart. -/
def largestInteger : Nat := 9007199254740991

def BasicKind.accepts : BasicKind → Value → Bool
  | array, value => value.items?.isSome
  | boolean, .bool _ => true
  | number, .int _ => true
  | number, .float x => decide (Quantity.ofFloat x ≠ .undefined)
  | integer, .int n => decide (n.natAbs ≤ largestInteger)
  | integer, .float x =>
      (Quantity.ofFloat x).isWhole && (Quantity.ofFloat x).isWithin largestInteger
  | string, .str _ => true
  | nonEmpty, .str text => !text.isEmpty
  | nonEmpty, value => value.items?.any fun items => !items.isEmpty
  | _, _ => false

namespace Check

def basic (kind : BasicKind) (path : Path) : Check := fun value =>
  if kind.accepts value then .ok value else Complaint.reject path (.notBasic kind)

/-- Only the truth value true passes. -/
def predicate (calls : Calls) (test : Callable) (message : String) (detail : Option Detail)
    (path : Path) : Check := fun value =>
  match calls test value with
  | .raised exception => Complaint.reject path (.predicateRaised exception)
  | .value (.bool true) => .ok value
  | _ => Complaint.reject path (.predicateFailed message detail)

def function (calls : Calls) (callable : Callable) (path : Path) : Check := fun value =>
  match calls callable value with
  | .raised exception => Complaint.reject path (.functionRaised exception)
  | .value other => Complaint.reject path (.noOutcome other)
  | .outcome outcome => outcome.under path

def optional (default : Value) (inner : Check) : Check := fun value =>
  if value.isNull then .ok default else inner value

/-- The options are listed as the schema gave them. -/
def enum (listed : Value) (options : List Value) (path : Path) : Check := fun value =>
  if options.any value.equalsLiteral then .ok value
  else Complaint.reject path (.notAnOption listed)

/-- A property of an object, with the check of its value. -/
structure Property where
  name : String
  required : Bool
  check : Check

/-- The required names that the entries lack, as often as they are required. -/
def missing (properties : List Property) (entries : List (Value × Value)) : List String :=
  (properties.filter fun property =>
    property.required && (Value.property property.name entries).isNone).map (·.name)

def isDeclared (properties : List Property) : Value → Bool
  | .str key => properties.any fun property => property.name == key
  | _ => false

/-- The keys that no property declares, in the order of the entries. -/
def surplus (properties : List Property) (entries : List (Value × Value)) : List Value :=
  (entries.map (·.1)).filter fun key => !isDeclared properties key

/-- Each property in turn on the value under its name, on nothing where there is none. -/
def propertyOutcomes (properties : List Property) (entries : List (Value × Value)) :
    List (Outcome (String × Value)) :=
  properties.map fun property =>
    (property.check ((Value.property property.name entries).getD .null)).map fun value =>
      (property.name, value)

/-- A name stands where it first came and holds its last value. -/
def rebuild (pairs : List (String × Value)) : Value :=
  .dict ((Entries.ofNamed pairs).map fun (name, value) => (.str name, value))

def object (properties : List Property) (path : Path) : Check
  | .dict entries =>
      let missing := missing properties entries
      let surplus := surplus properties entries
      if !missing.isEmpty then Complaint.reject path (.missing missing)
      else if !surplus.isEmpty then Complaint.reject path (.surplus surplus)
      else (Outcome.collect (propertyOutcomes properties entries)).map rebuild
  | _ => Complaint.reject path .notObject

def indexed (checks : List Check) (path : Path) : Check := fun value =>
  match value.items? with
  | none => Complaint.reject path .notArray
  | some items =>
      if items.length ≠ checks.length then
        Complaint.reject path (.wrongLength checks.length items.length)
      else (Outcome.collect (List.zipWith (fun check item => check item) checks items)).map .list

def oneOf (branches : List Check) : Check := fun value =>
  Outcome.first (branches.map fun branch => branch value)

/-- Every check on what the one before it accepted. -/
def chain : List Check → Check
  | [] => fun value => .ok value
  | check :: rest => fun value => check value >>= chain rest

end Check

end SchemaCheck
