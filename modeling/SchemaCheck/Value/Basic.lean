import SchemaCheck.Path

/-!
Values and schemas. A schema is itself a value: a text names a basic kind, a list is a chain of
schemas, a callable transforms, and a step is one of the composite constructions. So a message may
quote a schema as it quotes data, and anything at all may be offered as a schema.
-/

namespace SchemaCheck

/-- A function supplied by the caller, known by its label; its meaning is given separately. -/
structure Callable where
  label : String
  key : Nat
deriving DecidableEq, Repr

/-- An exception that a callable raised: the name of its type, its text and its inspected form. -/
structure Raised where
  typeName : String
  text : String
  inspected : String
deriving DecidableEq, Repr

mutual

inductive Value
  | null
  | bool (b : Bool)
  | int (n : Int)
  | float (x : Float)
  | str (text : String)
  | list (items : List Value)
  | tuple (items : List Value)
  | dict (entries : List (Value × Value))
  | foreign (typeName inspected : String)
  | function (callable : Callable)
  | step (step : Step)

/-- What a chain can hold besides names of basic kinds and callables. -/
inductive Step
  | predicate (test : Callable) (message : String) (detail : Option Detail)
  | optional (inner fallback : Value)
  | enum (options : Value)
  | object (fields : List (String × Value))
  | indexed (entries : Value)
  | oneOf (branches : Value)

/-- What an issue says beyond its message. -/
inductive Detail
  | found (value : Value)
  | expected (values : Value)
  | unexpected (values : Value)
  | caught (exception : Raised)
  | errors (issues : List Issue)

structure Issue where
  path : Path
  message : String
  detail : Option Detail

end

abbrev Schema := Value

instance : Inhabited Value := ⟨.null⟩

namespace Value

/-- The items of a list or a tuple. -/
def items? : Value → Option (List Value)
  | list items => some items
  | tuple items => some items
  | _ => none

/-- A list or a tuple of the items. -/
inductive IsArrayOf (items : List Value) : Value → Prop
  | list : IsArrayOf items (.list items)
  | tuple : IsArrayOf items (.tuple items)

theorem items?_eq_some_iff {value : Value} {items : List Value} :
    value.items? = some items ↔ value.IsArrayOf items := by
  constructor
  · intro listed
    cases value with
    | list own =>
        cases listed
        exact .list
    | tuple own =>
        cases listed
        exact .tuple
    | _ => cases listed
  · intro array
    cases array with
    | list => rfl
    | tuple => rfl

def isNull : Value → Bool
  | null => true
  | _ => false

/-- What a dict holds under a name. -/
def property (name : String) : List (Value × Value) → Option Value
  | [] => none
  | (str key, value) :: rest => if key = name then some value else property name rest
  | _ :: rest => property name rest

end Value

namespace Issue

/-- The same issue seen from further out. -/
def under (base : Path) (issue : Issue) : Issue :=
  { issue with path := base ++ issue.path }

@[simp] theorem under_nil (issue : Issue) : issue.under [] = issue := by
  cases issue
  rfl

theorem under_under (outer inner : Path) (issue : Issue) :
    (issue.under inner).under outer = issue.under (outer ++ inner) := by
  simp only [under, List.append_assoc]

end Issue

end SchemaCheck
