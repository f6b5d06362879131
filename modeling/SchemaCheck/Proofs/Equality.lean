import SchemaCheck.Value.Literal

/-!
Equality of literals. Numbers are equal if they stand at one place; so equal literals, among them
those that a literal type takes to be the same, are equal to the same values. A truth value equals
no number, though as the key of a dict it is one.
-/

namespace SchemaCheck

namespace Quantity

/-- Where a number stands: at an end of the line, or so many units from zero. -/
inductive Place
  | infinite (negative : Bool)
  | finite (units : Int)

/-- An undefined quantity stands nowhere. -/
def place? : Quantity → Option Place
  | undefined => none
  | infinite negative => some (.infinite negative)
  | q@(finite ..) => some (.finite q.units)

theorem equals_iff {left right : Quantity} :
    left.equals right = true ↔ left.place?.isSome = true ∧ left.place? = right.place? := by
  cases left with
  | undefined => simp [equals, order_undefined_left, place?]
  | infinite negative =>
      cases right with
      | undefined => simp [equals, order_undefined_right, place?]
      | infinite other => cases negative <;> cases other <;> simp [equals, order, place?]
      | finite => cases negative <;> simp [equals, order, place?]
  | finite negative significand scale =>
      cases right with
      | undefined => simp [equals, order_undefined_right, place?]
      | infinite other => cases other <;> simp [equals, order, place?]
      | finite otherNegative otherSignificand otherScale =>
          have ordered : order (finite negative significand scale)
              (finite otherNegative otherSignificand otherScale) =
                some (compare (finite negative significand scale).units
                  (finite otherNegative otherSignificand otherScale).units) := rfl
          rw [equals, ordered]
          simp [place?]

theorem exists_place_eq_ofInt {quantity : Quantity} (whole : quantity.isWhole = true) :
    ∃ n, quantity.place? = (ofInt n).place? := by
  cases quantity with
  | finite negative significand scale =>
      have multiple : (finite negative significand scale).magnitude % one = 0 := beq_iff_eq.mp whole
      rcases Nat.dvd_of_mod_eq_zero multiple with ⟨size, known⟩
      rw [Nat.mul_comm] at known
      have standing : ∀ n : Int, (finite negative significand scale).units = n * one →
          (finite negative significand scale).place? = (ofInt n).place? := by
        intro n same
        rw [← units_ofInt] at same
        exact congrArg (fun units => some (Place.finite units)) same
      cases negative with
      | true =>
          refine ⟨-size, standing _ ?_⟩
          rw [units, known, Int.natCast_mul, Int.neg_mul]
      | false =>
          refine ⟨size, standing _ ?_⟩
          rw [units, known, Int.natCast_mul]
          simp
  | _ => cases whole

end Quantity

namespace Value

theorem isLiteral_of_equals {value option : Value} (equal : value.equalsLiteral option = true) :
    value.isLiteral = true := by
  cases value with
  | bool b => rfl
  | int n => rfl
  | float x => rfl
  | str text => rfl
  | _ => cases equal

theorem equalsLiteral_of_quantity {left right : Value} {first second : Quantity}
    (own : left.quantity? = some first) (other : right.quantity? = some second)
    (same : first.place? = second.place?) (value : Value) :
    value.equalsLiteral left = value.equalsLiteral right := by
  have numbers : ∀ {number : Value} {quantity : Quantity}, number.quantity? = some quantity →
      (value.equalsLiteral number = true ↔
        ∃ own, value.quantity? = some own ∧ own.equals quantity = true) := by
    intro number quantity known
    cases number with
    | int n => cases known; cases value <;> simp [equalsLiteral, quantity?]
    | float x => cases known; cases value <;> simp [equalsLiteral, quantity?]
    | _ => cases known
  rw [Bool.eq_iff_iff, numbers own, numbers other]
  simp only [Quantity.equals_iff, same]

theorem equalsLiteral_of_equal {left right : Value} (same : left.equalsLiteral right = true)
    (value : Value) :
    value.equalsLiteral left = value.equalsLiteral right := by
  unfold equalsLiteral at same
  split at same
  · rw [beq_iff_eq.mp same]
  · rw [beq_iff_eq.mp same]
  · split at same
    · rename_i own other
      exact equalsLiteral_of_quantity own other (Quantity.equals_iff.mp same).2 value
    · cases same

theorem equalsLiteral_of_typed {left right : Value} (same : left.equalsTyped right = true) :
    left.equalsLiteral right = true := by
  unfold equalsTyped at same
  split at same
  · exact same
  · exact same
  · simpa [equalsLiteral, quantity?, Quantity.equals_ofInt] using same
  · exact same
  · cases same

theorem equalsLiteral_congr {left right : Value} (same : left.equalsTyped right = true)
    (value : Value) : value.equalsLiteral left = value.equalsLiteral right :=
  equalsLiteral_of_equal (equalsLiteral_of_typed same) value

def isTruth : Value → Bool
  | bool _ => true
  | _ => false

/-- Equal where a truth value is the number zero or one, and both truth values or neither of them
one. -/
def EqualInKind (value option : Value) : Prop :=
  value.sameKey option = true ∧ value.isTruth = option.isTruth

theorem equalsLiteral_iff {value option : Value} (literal : option.isLiteral = true) :
    value.equalsLiteral option = true ↔ value.EqualInKind option := by
  cases option with
  | bool b =>
      cases value with
      | bool other =>
          cases b <;> cases other <;>
            simp [equalsLiteral, EqualInKind, isTruth, sameKey, keyQuantity?, Quantity.equals_ofInt]
      | _ => simp [equalsLiteral, EqualInKind, isTruth, quantity?]
  | int n =>
      cases value <;> simp [equalsLiteral, EqualInKind, isTruth, sameKey, keyQuantity?, quantity?]
  | float x =>
      cases value <;> simp [equalsLiteral, EqualInKind, isTruth, sameKey, keyQuantity?, quantity?]
  | str text =>
      cases value <;> simp [equalsLiteral, EqualInKind, isTruth, sameKey, keyQuantity?, quantity?]
  | _ => cases literal

theorem equalInKind_of_equals {value option : Value} (equal : value.equalsLiteral option = true) :
    value.EqualInKind option := by
  refine (equalsLiteral_iff ?_).mp equal
  cases option with
  | bool b => rfl
  | int n => rfl
  | float x => rfl
  | str text => rfl
  | _ => cases value <;> cases equal

theorem exists_equalInKind_int {value : Value} {quantity : Quantity}
    (known : value.quantity? = some quantity) (whole : quantity.isWhole = true) :
    ∃ n, value.EqualInKind (.int n) := by
  rcases Quantity.exists_place_eq_ofInt whole with ⟨n, same⟩
  have stands : quantity.place?.isSome = true := by
    rw [same]
    rfl
  have equal := Quantity.equals_iff.mpr ⟨stands, same⟩
  refine ⟨n, equalInKind_of_equals ?_⟩
  cases value with
  | int m =>
      cases known
      exact equal
  | float x =>
      cases known
      exact equal
  | _ => cases known

end Value

end SchemaCheck
