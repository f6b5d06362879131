import SchemaCheck.Number.Quantity

/-!
The shortest decimal that reads back as a given float. A float stands for an interval of reals;
among the decimals with the fewest digits in it, the nearest to the float is chosen, and of two
equally near ones the one that ends in an even digit.
-/

namespace SchemaCheck

/-- The reals that round to one float, as fractions of a common denominator. -/
structure Interval where
  low : Nat
  value : Nat
  high : Nat
  denominator : Nat
  closed : Bool

/-- The number `digits * 10 ^ exponent`. -/
structure Decimal where
  digits : Nat
  exponent : Int
deriving DecidableEq, Repr

namespace Interval

/-- Halfway to both neighbours; below a power of two the neighbour is nearer by half. -/
def ofFloat (significand scale : Nat) : Interval :=
  let gap := if significand = Quantity.hiddenBit ∧ 0 < scale then 1 else 2
  { low := (4 * significand - gap) <<< scale
    value := (4 * significand) <<< scale
    high := (4 * significand + 2) <<< scale
    denominator := 4 <<< Quantity.resolution
    closed := significand % 2 == 0 }

def digitCount (n : Nat) : Nat :=
  (Nat.toDigits 10 n).length

/-- The exponent `e` with `10 ^ (e - 1) ≤ value < 10 ^ e`. -/
def leading (interval : Interval) : Int :=
  if interval.denominator ≤ interval.value then
    digitCount (interval.value / interval.denominator)
  else
    1 - digitCount ((interval.denominator - 1) / interval.value)

/-- The nearest point of the grid of multiples of `10 ^ exponent`, if it lies in the interval. -/
def point? (interval : Interval) (exponent : Int) : Option Nat :=
  let factor := Nat.pow 10 (-exponent).toNat
  let step := interval.denominator * Nat.pow 10 exponent.toNat
  let low := interval.low * factor
  let value := interval.value * factor
  let high := interval.high * factor
  let inside (n : Nat) : Bool :=
    if interval.closed then decide (low ≤ n * step ∧ n * step ≤ high)
    else decide (low < n * step ∧ n * step < high)
  let below := value / step
  let rest := 2 * (value - below * step)
  match inside below, inside (below + 1) with
  | true, true =>
      if rest < step ∨ rest = step ∧ below % 2 = 0 then some below else some (below + 1)
  | true, false => some below
  | false, true => some (below + 1)
  | false, false => none

/-- Seventeen digits always suffice. -/
def shortest (interval : Interval) : Decimal :=
  let leading := interval.leading
  let found := (List.range' 1 17).findSome? fun (count : Nat) =>
    (interval.point? (leading - count)).map fun digits => Decimal.mk digits (leading - count)
  found.getD ⟨0, 0⟩

end Interval

end SchemaCheck
