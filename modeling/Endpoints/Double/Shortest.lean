import Endpoints.Double.Basic

/-! # Shortest decimals

The decimal with the fewest digits that reads back as a given double, and of those the nearest one.
For one, two, ... seventeen digits the two neighbours of the value on that decimal grid are tested;
the first grid with a hit wins. All tests are exact comparisons of natural numbers.
-/

namespace Endpoints.Double

/-- The number `digits * 10 ^ exponent`. -/
structure Decimal where
  digits : Nat
  exponent : Int
deriving DecidableEq, Repr

/-- The reals that round to a double: `(low, high)` over `den`, with the ends included if `closed`.
The value itself is `mid / den`. -/
structure Basin where
  low : Nat
  mid : Nat
  high : Nat
  den : Nat
  closed : Bool

/-- The reals that round to `x`. Below a power of two the doubles lie twice as close. -/
def basin (x : Double) : Basin :=
  let below := if x.significand == Nat.pow 2 52 && x.exponent > -1074 then 1 else 2
  let (unit, den) := scaleRatio 1 1 (x.exponent - 2)
  { low := (4 * x.significand - below) * unit
    mid := 4 * x.significand * unit
    high := (4 * x.significand + 2) * unit
    den := den
    closed := x.significand % 2 == 0 }

/-- Whether `num / den` rounds to the double. -/
def Basin.contains (b : Basin) (num den : Nat) : Bool :=
  let (low, mid, high) := (b.low * den, num * b.den, b.high * den)
  if b.closed then low ≤ mid && mid ≤ high else low < mid && mid < high

/-- The value of a decimal as a quotient. -/
def Decimal.toRatio (d : Decimal) : Nat × Nat :=
  (d.digits * Nat.pow 10 d.exponent.toNat, Nat.pow 10 (-d.exponent).toNat)

/-- The neighbour of the value on the grid of multiples of `10 ^ exponent` that reads back, the
nearer one if both do. -/
def Basin.onGrid? (b : Basin) (exponent : Int) : Option Decimal :=
  let (stepNum, stepDen) := Decimal.toRatio ⟨1, exponent⟩
  let floor := b.mid * stepDen / (b.den * stepNum)
  let rest := b.mid * stepDen % (b.den * stepNum)
  let reads (digits : Nat) : Bool :=
    let (num, den) := Decimal.toRatio ⟨digits, exponent⟩
    digits != 0 && b.contains num den
  match reads floor, reads (floor + 1) with
  | true, true => some ⟨if 2 * rest ≤ b.den * stepNum then floor else floor + 1, exponent⟩
  | true, false => some ⟨floor, exponent⟩
  | false, true => some ⟨floor + 1, exponent⟩
  | false, false => none

/-- The exponent `e` with `10 ^ e ≤ mid / den < 10 ^ (e + 1)`, searched upwards from `guess`. -/
def Basin.decimalExponent (b : Basin) (guess : Int) : Nat → Int
  | 0 => guess
  | steps + 1 =>
    let (num, den) := Decimal.toRatio ⟨1, guess + 1⟩
    if num * b.den ≤ b.mid * den then b.decimalExponent (guess + 1) steps else guess

/-- Removes zeros at the end of the digits, at most `fuel` of them. -/
def Decimal.strip (d : Decimal) : Nat → Decimal
  | 0 => d
  | fuel + 1 =>
    if d.digits != 0 && d.digits % 10 == 0 then
      Decimal.strip ⟨d.digits / 10, d.exponent + 1⟩ fuel
    else
      d

/-- The shortest decimal for the absolute value of `x`. -/
def shortest (x : Double) : Decimal :=
  if x.significand == 0 then
    ⟨0, 0⟩
  else
    let b := x.basin
    let bits : Int := (Nat.log2 b.mid : Int) - Nat.log2 b.den - 1
    let top := b.decimalExponent (bits * 30103 / 100000 - 1) 4
    let found := (List.range 17).findSome? fun n : Nat => b.onGrid? (top - n)
    (found.getD ⟨0, 0⟩).strip 17

/-- How the decimal of a double is written out. -/
structure Layout where
  /-- The least and greatest position of the point, counted from the first digit, that is written
  without an exponent. -/
  leastPoint : Int
  greatestPoint : Int
  /-- Whether a positive exponent has its sign. -/
  plus : Bool

/-- The text of a double: always with a fraction or an exponent. -/
def text (layout : Layout) (x : Double) : String :=
  let d := x.shortest
  let digits := Nat.toDigits 10 d.digits
  let point := (digits.length : Int) + d.exponent
  let zeros (n : Int) : List Char := List.replicate n.toNat '0'
  let body : List Char :=
    if d.digits == 0 then
      ['0', '.', '0']
    else if layout.leastPoint ≤ point && point ≤ layout.greatestPoint then
      if d.exponent ≥ 0 then
        digits ++ zeros d.exponent ++ ['.', '0']
      else if point > 0 then
        digits.take point.toNat ++ '.' :: digits.drop point.toNat
      else
        '0' :: '.' :: zeros (-point) ++ digits
    else
      let exponent := point - 1
      let sign := if exponent < 0 then ['-'] else if layout.plus then ['+'] else []
      let fraction := match digits.drop 1 with
        | [] => []
        | rest => '.' :: rest
      digits.take 1 ++ fraction ++ 'e' :: sign ++ Nat.toDigits 10 exponent.natAbs
  String.ofList (if x.negative then '-' :: body else body)

end Endpoints.Double
