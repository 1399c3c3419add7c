/-! # Finite double-precision numbers

A `Double` is a sign, a significand below `2 ^ 53` and a binary exponent. All arithmetic is exact
arithmetic on natural numbers followed by one rounding: `Double.ofRatio?` gives the double nearest
to a quotient, ties to the even significand, and `none` where the nearest double would be infinite.
-/

namespace Endpoints

/-- The number `significand * 2 ^ exponent` with a sign. The significand has 53 bits unless the
exponent is the least one, -1074. -/
structure Double where
  negative : Bool
  significand : Nat
  exponent : Int
deriving DecidableEq, Repr

namespace Double

def zero (negative : Bool) : Double := ⟨negative, 0, -1074⟩

/-- The two zeros are the same value. -/
instance : BEq Double where
  beq a b := a.significand == b.significand && (a.significand == 0 ||
    (a.negative == b.negative && a.exponent == b.exponent))

theorem beq_self (a : Double) : (a == a) = true := by
  simp [BEq.beq]

/-- `num * 2 ^ shift` over `den * 2 ^ (-shift)`, whichever of the two powers is positive. -/
def scaleRatio (num den : Nat) (shift : Int) : Nat × Nat :=
  (num * Nat.pow 2 shift.toNat, den * Nat.pow 2 (-shift).toNat)

/-- The integer nearest to `num / den`, a tie going to the even one. -/
def roundRatio (num den : Nat) : Nat :=
  let quotient := num / den
  let twice := 2 * (num % den)
  if twice > den || (twice == den && quotient % 2 == 1) then quotient + 1 else quotient

/-- The double nearest to `num / den`, ties to even; `none` where that is infinite. -/
def ofRatio? (negative : Bool) (num den : Nat) : Option Double :=
  if num == 0 || den == 0 then
    some (zero negative)
  else
    -- The quotient has between `bits` and `bits + 1` binary digits before the point.
    let bits : Int := (Nat.log2 num : Int) - Nat.log2 den
    let low := max (bits - 53) (-1074)
    let (n, d) := scaleRatio num den (-low)
    let exponent := if n / d < Nat.pow 2 53 then low else low + 1
    let (n, d) := scaleRatio num den (-exponent)
    let m := roundRatio n d
    let (m, exponent) := if m == Nat.pow 2 53 then (Nat.pow 2 52, exponent + 1) else (m, exponent)
    if exponent > 971 then none
    else if m == 0 then some (zero negative)
    else some ⟨negative, m, exponent⟩

/-- The absolute value as a quotient of natural numbers. -/
def toRatio (x : Double) : Nat × Nat :=
  scaleRatio x.significand 1 x.exponent

/-- The number of decimal digits of `n`. -/
def decimalLength (n : Nat) : Nat :=
  (Nat.toDigits 10 n).length

/-- The double nearest to `digits * 10 ^ exponent`; `none` where that is infinite. -/
def ofDecimal? (negative : Bool) (digits : Nat) (exponent : Int) : Option Double :=
  let point := (decimalLength digits : Int) + exponent
  if digits == 0 || point < -330 then some (zero negative)
  else if point > 310 then none
  else ofRatio? negative (digits * Nat.pow 10 exponent.toNat) (Nat.pow 10 (-exponent).toNat)

/-- The product of two doubles, rounded once. -/
def mul? (x y : Double) : Option Double :=
  let (a, b) := x.toRatio
  let (c, d) := y.toRatio
  ofRatio? (x.negative != y.negative) (a * c) (b * d)

/-- The quotient of two doubles, rounded once; the divisor is not zero. -/
def div? (x y : Double) : Option Double :=
  let (a, b) := x.toRatio
  let (c, d) := y.toRatio
  ofRatio? (x.negative != y.negative) (a * d) (b * c)

end Double

end Endpoints
