import SchemaCheck.Value.Basic
import SchemaCheck.Number.Quantity

/-!
Literals and the three ways in which values are taken to be the same: as options of an enum, where
a truth value is no number; as members of a literal type, where the type counts too; and as keys of
a dict, where a truth value is the number zero or one and steps are the same if their parts are.
-/

namespace SchemaCheck

namespace Value

def isLiteral : Value → Bool
  | bool _ => true
  | int _ => true
  | float _ => true
  | str _ => true
  | _ => false

inductive IsScalar : Value → Prop
  | bool (b : Bool) : IsScalar (.bool b)
  | int (n : Int) : IsScalar (.int n)
  | float (x : Float) : IsScalar (.float x)
  | str (text : String) : IsScalar (.str text)

theorem isLiteral_iff {value : Value} : value.isLiteral = true ↔ value.IsScalar := by
  constructor
  · intro literal
    cases value with
    | bool b => exact .bool b
    | int n => exact .int n
    | float x => exact .float x
    | str text => exact .str text
    | _ => cases literal
  · intro scalar
    cases scalar <;> rfl

def quantity? : Value → Option Quantity
  | int n => some (.ofInt n)
  | float x => some (.ofFloat x)
  | _ => none

/-- Whole numbers and floats are compared exactly; nothing equals an undefined number. -/
def equalsLiteral : Value → Value → Bool
  | bool left, bool right => left == right
  | str left, str right => left == right
  | left, right =>
      match left.quantity?, right.quantity? with
      | some left, some right => left.equals right
      | _, _ => false

def equalsTyped : Value → Value → Bool
  | bool left, bool right => left == right
  | str left, str right => left == right
  | int left, int right => left == right
  | float left, float right => (Quantity.ofFloat left).equals (.ofFloat right)
  | _, _ => false

def keyQuantity? : Value → Option Quantity
  | bool b => some (.ofInt (if b then 1 else 0))
  | value => value.quantity?

end Value

mutual

def Value.sameKey : Value → Value → Bool
  | .null, .null => true
  | .str left, .str right => left == right
  | .tuple left, .tuple right => Value.sameKeys left right
  | .function left, .function right => left == right
  | .step left, .step right => left.sameKey right
  | left, right =>
      match left.keyQuantity?, right.keyQuantity? with
      | some left, some right => left.equals right
      | _, _ => false

def Value.sameKeys : List Value → List Value → Bool
  | [], [] => true
  | left :: lefts, right :: rights => left.sameKey right && Value.sameKeys lefts rights
  | _, _ => false

def Step.sameKey : Step → Step → Bool
  | .predicate leftTest leftMessage leftDetail, .predicate rightTest rightMessage rightDetail =>
      leftTest == rightTest && leftMessage == rightMessage &&
        Detail.sameKeyOption leftDetail rightDetail
  | .optional leftInner leftFallback, .optional rightInner rightFallback =>
      leftInner.sameKey rightInner && leftFallback.sameKey rightFallback
  | .enum left, .enum right => left.sameKey right
  | .object left, .object right => Step.sameFields left right
  | .indexed left, .indexed right => left.sameKey right
  | .oneOf left, .oneOf right => left.sameKey right
  | _, _ => false

def Step.sameFields : List (String × Value) → List (String × Value) → Bool
  | [], [] => true
  | (leftName, left) :: lefts, (rightName, right) :: rights =>
      leftName == rightName && left.sameKey right && Step.sameFields lefts rights
  | _, _ => false

def Detail.sameKey : Detail → Detail → Bool
  | .found left, .found right => left.sameKey right
  | .expected left, .expected right => left.sameKey right
  | .unexpected left, .unexpected right => left.sameKey right
  | _, _ => false

def Detail.sameKeyOption : Option Detail → Option Detail → Bool
  | none, none => true
  | some left, some right => left.sameKey right
  | _, _ => false

end

end SchemaCheck
