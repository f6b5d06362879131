import SchemaCheck.Value.Literal

/-!
Models of data: named fields with the shape of what they hold. Shapes of unions and literals are
compared as sets, and models by their serial numbers alone.
-/

namespace SchemaCheck

mutual

inductive Shape
  | any
  | null
  | boolean
  | integer
  | number
  | string
  | list (item : Shape)
  | tuple (items : List Shape)
  | literal (serial : Nat) (options : List Value)
  | union (members : List Shape)
  | model (model : Model)

structure Model where
  serial : Nat
  name : String
  fields : List Field

/-- A field without a default is required. -/
structure Field where
  name : String
  shape : Shape
  default : Option Value

end

def Field.isRequired (field : Field) : Bool :=
  field.default.isNone

/-- What makes models: which of the fields handed over a model has, or why there is none, and how
many literals and unions of its own a maker asks for meanwhile. -/
structure Maker where
  make : String → List Field → Except String (List Field)
  literals : Nat
  unions : Nat

/-- Names of which no maker makes a field: those with an underscore in front, and that of a model's
own settings. -/
def isReserved (name : String) : Bool :=
  name.toList.head? == some '_' || name == "model_config"

namespace Maker

/-- A model has the fields handed over, as they are and in order, except those of reserved names. -/
def Lawful (maker : Maker) : Prop :=
  ∀ name given fields, maker.make name given = .ok fields →
    fields = given.filter fun field => !isReserved field.name

/-- A maker that refuses nothing. -/
def lenient (literals unions : Nat) : Maker :=
  ⟨fun _ given => .ok (given.filter fun field => !isReserved field.name), literals, unions⟩

theorem lenient_lawful (literals unions : Nat) : (lenient literals unions).Lawful := by
  intro name given fields made
  exact (Except.ok.inj made).symm

theorem Lawful.mem {maker : Maker} (lawful : maker.Lawful) {name : String}
    {given fields : List Field}
    (made : maker.make name given = .ok fields) {field : Field} (member : field ∈ fields) :
    field ∈ given := by
  rw [lawful name given fields made] at member
  exact (List.mem_filter.mp member).1

end Maker

/-- The items that no earlier item is the same as. -/
def distinct {α : Type} (same : α → α → Bool) : List α → List α
  | [] => []
  | head :: tail => head :: (distinct same tail).filter fun item => !same head item

/-- Whether every option on the left is among those on the right. -/
def literalsWithin (left right : List Value) : Bool :=
  left.all fun option => right.any option.equalsTyped

namespace Shape

mutual

def same : Shape → Shape → Bool
  | any, any => true
  | null, null => true
  | boolean, boolean => true
  | integer, integer => true
  | number, number => true
  | string, string => true
  | list left, list right => same left right
  | tuple left, tuple right => sameAll left right
  | literal serial left, literal serial' right =>
      serial == serial' || literalsWithin left right && literalsWithin right left
  | union left, union right => within left right && right.all (among left)
  | model left, model right => left.serial == right.serial
  | _, _ => false

def sameAll : List Shape → List Shape → Bool
  | [], [] => true
  | left :: lefts, right :: rights => same left right && sameAll lefts rights
  | _, _ => false

/-- Whether every shape on the left is the same as one on the right. -/
def within : List Shape → List Shape → Bool
  | [], _ => true
  | head :: tail, shapes => shapes.any (same head) && within tail shapes

/-- Whether a shape is the same as one in the list. -/
def among : List Shape → Shape → Bool
  | [], _ => false
  | head :: tail, shape => same head shape || among tail shape

end

def members : Shape → List Shape
  | union members => members
  | shape => [shape]

/-- Unions inside a union are spliced in and repetitions left out; a union of one is that one. -/
def unionOf (shapes : List Shape) : Shape :=
  match distinct same (shapes.flatMap members) with
  | [only] => only
  | shapes => union shapes

/-- The serial number tells literals apart that hold an undefined number, which equals nothing. -/
def literalOf (serial : Nat) (options : List Value) : Shape :=
  literal serial (distinct Value.equalsTyped options)

end Shape

end SchemaCheck
