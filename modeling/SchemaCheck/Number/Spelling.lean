import SchemaCheck.Number.Shortest

/-!
How floats are written: with their shortest digits, positionally while the decimal exponent is
small, and always so that they do not look like whole numbers.
-/

namespace SchemaCheck

/-- The format's decisions: which decimal exponents are written positionally, and two names. -/
structure FloatSpelling where
  lowest : Int
  highest : Int
  notANumber : String
  infinity : String

namespace FloatSpelling

def plain : FloatSpelling := ⟨-4, 15, "nan", "inf"⟩

def json : FloatSpelling := ⟨-4, 15, "NaN", "Infinity"⟩

def zeros (count : Int) : List Char :=
  List.replicate count.toNat '0'

def withoutTrailingZeros (digits : List Char) : List Char :=
  (digits.reverse.dropWhile (· == '0')).reverse

/-- The point stands after `point` digits; a digit stands on either side of it. -/
def positional (digits : List Char) (point : Int) : List Char :=
  if point ≤ 0 then '0' :: '.' :: zeros (-point) ++ digits
  else if digits.length ≤ point then digits ++ zeros (point - digits.length) ++ ['.', '0']
  else digits.take point.toNat ++ '.' :: digits.drop point.toNat

def exponentDigits (n : Nat) : List Char :=
  if n < 10 then '0' :: Nat.toDigits 10 n else Nat.toDigits 10 n

/-- One digit before the point, and an exponent with its sign and two digits at least. -/
def scientific (digits : List Char) (exponent : Int) : List Char :=
  let fraction := if digits.length ≤ 1 then [] else '.' :: digits.drop 1
  let sign := if exponent < 0 then '-' else '+'
  digits.take 1 ++ fraction ++ 'e' :: sign :: exponentDigits exponent.natAbs

def decimal (spelling : FloatSpelling) (number : Decimal) : List Char :=
  let written := Nat.toDigits 10 number.digits
  let point := number.exponent + written.length
  let digits := withoutTrailingZeros written
  if spelling.lowest < point ∧ point - 1 ≤ spelling.highest then positional digits point
  else scientific digits (point - 1)

def signed (negative : Bool) (text : String) : String :=
  if negative then "-" ++ text else text

def quantity (spelling : FloatSpelling) : Quantity → String
  | .undefined => spelling.notANumber
  | .infinite negative => signed negative spelling.infinity
  | .finite negative 0 _ => signed negative "0.0"
  | .finite negative significand scale =>
      signed negative
        (String.ofList (spelling.decimal (Interval.ofFloat significand scale).shortest))

def text (spelling : FloatSpelling) (x : Float) : String :=
  spelling.quantity (.ofFloat x)

end FloatSpelling

end SchemaCheck
