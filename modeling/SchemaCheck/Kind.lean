/-!
The kinds of steps. Basic kinds go by name; which kind may follow which is settled here for whole
chains.
-/

namespace SchemaCheck

inductive BasicKind
  | array
  | boolean
  | number
  | integer
  | string
  | nonEmpty
deriving DecidableEq, Repr

namespace BasicKind

def name : BasicKind → String
  | array => "array"
  | boolean => "boolean"
  | number => "number"
  | integer => "integer"
  | string => "string"
  | nonEmpty => "non-empty"

def all : List BasicKind :=
  [array, boolean, number, integer, string, nonEmpty]

def ofName? (text : String) : Option BasicKind :=
  all.find? fun kind => kind.name == text

/-- Narrows a kind that an earlier step has established, so it opens no chain. -/
def narrows : BasicKind → Bool
  | integer => true
  | nonEmpty => true
  | _ => false

theorem ofName?_name (kind : BasicKind) : ofName? kind.name = some kind := by
  cases kind <;> decide

theorem name_of_ofName? {text : String} {kind : BasicKind} (found : ofName? text = some kind) :
    kind.name = text := by
  have named := List.find?_some found
  exact beq_iff_eq.mp named

end BasicKind

inductive Kind
  | basic (kind : BasicKind)
  | predicate
  | function
  | optional
  | enum
  | object
  | indexed
  | oneOf
deriving DecidableEq, Repr

namespace Kind

def name : Kind → String
  | basic kind => kind.name
  | predicate => "predicate"
  | function => "function"
  | optional => "optional"
  | enum => "enum"
  | object => "object"
  | indexed => "indexed"
  | oneOf => "oneOf"

def all : List Kind :=
  BasicKind.all.map basic ++ [predicate, function, optional, enum, object, indexed, oneOf]

/-- Whether a step of kind `later` may directly follow one of kind `earlier`. -/
def admits (earlier later : Kind) : Bool :=
  match earlier, later with
  | predicate, _ => true
  | function, _ => true
  | _, predicate => true
  | _, function => true
  | enum, enum => true
  | object, object => true
  | basic .array, indexed => true
  | basic .array, basic .nonEmpty => true
  | basic .string, basic .nonEmpty => true
  | basic .number, basic .integer => true
  | _, _ => false

end Kind

end SchemaCheck
