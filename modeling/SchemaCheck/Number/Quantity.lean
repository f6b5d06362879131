/-!
The exact size of a number. Every finite float is a whole multiple of 2⁻¹⁰⁷⁴, the smallest
positive one, so whole numbers and floats compare as integers in that unit.
-/

namespace SchemaCheck

/-- A finite quantity is `significand`, shifted left by `scale`, in units of 2⁻¹⁰⁷⁴; the sign of
zero is kept. -/
inductive Quantity
  | undefined
  | infinite (negative : Bool)
  | finite (negative : Bool) (significand scale : Nat)
deriving DecidableEq, Repr

namespace Quantity

/-- The leading bit of a significand, which normal floats leave out. -/
def hiddenBit : Nat := 1 <<< 52

def ofFloat (x : Float) : Quantity :=
  let bits := x.toBits.toNat
  let negative := bits.testBit 63
  let exponent := (bits >>> 52) % 2048
  let fraction := bits % hiddenBit
  if exponent = 2047 then
    if fraction = 0 then infinite negative else undefined
  else if exponent = 0 then finite negative fraction 0
  else finite negative (hiddenBit + fraction) (exponent - 1)

/-- Shifting left by this much turns whole numbers into units. -/
def resolution : Nat := 1074

def ofInt (n : Int) : Quantity :=
  finite (decide (n < 0)) n.natAbs resolution

/-- The number of units, without the sign. -/
def magnitude : Quantity → Nat
  | finite _ significand scale => significand <<< scale
  | _ => 0

def units (q : Quantity) : Int :=
  match q with
  | finite true _ _ => -q.magnitude
  | _ => q.magnitude

def one : Nat := 1 <<< resolution

theorem shift_eq_mul_one (n : Nat) : n <<< resolution = n * one := by
  rw [one, Nat.shiftLeft_eq, Nat.shiftLeft_eq, Nat.one_mul]

theorem one_pos : 0 < one := by
  rw [one, Nat.shiftLeft_eq, Nat.one_mul]
  exact Nat.two_pow_pos resolution

theorem units_ofInt (n : Int) : (ofInt n).units = n * one := by
  by_cases negative : n < 0
  · have size : (n.natAbs : Int) = -n := by omega
    simp only [ofInt, negative, decide_true, units, magnitude, shift_eq_mul_one,
      Int.natCast_mul, size, Int.neg_mul, Int.neg_neg]
  · have size : (n.natAbs : Int) = n := by omega
    simp only [ofInt, negative, decide_false, units, magnitude, shift_eq_mul_one,
      Int.natCast_mul, size]

/-- The order of two quantities, of which an undefined one has none. -/
def order : Quantity → Quantity → Option Ordering
  | undefined, _ => none
  | _, undefined => none
  | infinite left, infinite right => some (compare right left)
  | infinite negative, finite .. => some (if negative then .lt else .gt)
  | finite .., infinite negative => some (if negative then .gt else .lt)
  | left@(finite ..), right@(finite ..) => some (compare left.units right.units)

def equals (left right : Quantity) : Bool :=
  left.order right == some .eq

/-- Finite and without a fractional part. -/
def isWhole : Quantity → Bool
  | q@(finite ..) => q.magnitude % one == 0
  | _ => false

theorem isWhole_ofInt (n : Int) : (ofInt n).isWhole = true := by
  have size : (ofInt n).magnitude = n.natAbs * one := shift_eq_mul_one n.natAbs
  have whole : (ofInt n).magnitude % one = 0 := by rw [size, Nat.mul_mod_left]
  exact beq_iff_eq.mpr whole

/-- Not further from zero than `bound`. -/
def isWithin (bound : Nat) : Quantity → Bool
  | q@(finite ..) => decide (q.magnitude ≤ bound * one)
  | _ => false

theorem order_undefined_left (q : Quantity) : order undefined q = none := by
  cases q <;> rfl

theorem order_undefined_right (q : Quantity) : order q undefined = none := by
  cases q <;> rfl

theorem order_self {q : Quantity} (defined : q ≠ undefined) : q.order q = some .eq := by
  cases q with
  | undefined => exact absurd rfl defined
  | infinite negative => cases negative <;> rfl
  | finite negative significand scale => simp [order]

theorem equals_ofInt (m n : Int) : (ofInt m).equals (ofInt n) = decide (m = n) := by
  have ordered : (ofInt m).order (ofInt n) =
      some (compare (ofInt m).units (ofInt n).units) := rfl
  have scaled : m * one = n * one ↔ m = n :=
    Int.mul_eq_mul_right_iff (Int.ne_of_gt (Int.natCast_pos.mpr one_pos))
  rw [equals, ordered, units_ofInt, units_ofInt, Bool.eq_iff_iff]
  simp only [beq_iff_eq, Option.some.injEq, Int.compare_eq_eq, decide_eq_true_eq]
  exact scaled

end Quantity

end SchemaCheck
