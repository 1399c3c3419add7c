import Endpoints.Json.Basic

/-! # Numerals

Readers for the texts of numbers. `Numeral.integer?` and `Numeral.double?` read the number texts of
program sources and of tags; `Numeral.toJson` prefers integers and keeps any other text as a string.
`Numeral.scaled?` is the rule of JSON documents: the leading digits that fit 64 bits are rounded to
a double, which is then scaled by a power of ten in double arithmetic.
-/

namespace Endpoints.Numeral

/-- The value of a digit in a base up to sixteen. -/
def digit? (base : Nat) (c : Char) : Option Nat :=
  let value :=
    if '0' ≤ c ∧ c ≤ '9' then some (c.toNat - '0'.toNat)
    else if 'a' ≤ c ∧ c ≤ 'f' then some (c.toNat - 'a'.toNat + 10)
    else if 'A' ≤ c ∧ c ≤ 'F' then some (c.toNat - 'A'.toNat + 10)
    else none
  value.filter (· < base)

/-- The value of a nonempty run of digits. -/
def natural? (base : Nat) (digits : List Char) : Option Nat :=
  if digits.isEmpty then none
  else digits.foldlM (fun n c => (digit? base c).map (base * n + ·)) 0

/-- Splits off a sign; `true` means minus. -/
def sign : List Char → Bool × List Char
  | '-' :: cs => (true, cs)
  | '+' :: cs => (false, cs)
  | cs => (false, cs)

/-- An integer with an optional sign that fits 64 bits. -/
def integer? (base : Nat) (cs : List Char) : Option Int := do
  let (negative, digits) := sign cs
  let n ← natural? base digits
  let value : Int := if negative then -n else n
  if Word.fitsSigned 64 value then some value else none

/-- The exponent part of a decimal: nothing, or `e` with an integer. -/
def exponent? : List Char → Option Int
  | [] => some 0
  | c :: cs =>
    if c == 'e' || c == 'E' then
      let (negative, digits) := sign cs
      (natural? 10 digits).map fun n => if negative then -n else n
    else
      none

/-- A decimal with an optional sign, fraction and exponent, as the nearest double. There is at least
one digit before or after the point. Texts for infinity and not-a-number are refused, and so are
decimals beyond the finite doubles. -/
def double? (cs : List Char) : Option Double := do
  let (negative, body) := sign cs
  let (whole, rest) := body.span Char.isDigit
  let (fraction, rest) := match rest with
    | '.' :: rest => rest.span Char.isDigit
    | _ => ([], rest)
  let digits ← natural? 10 (whole ++ fraction)
  let exponent ← exponent? rest
  Double.ofDecimal? negative digits (exponent - fraction.length)

/-- The JSON value of a number text: an integer where it is one (also hexadecimal after `0x`), else
a double, else the text itself. -/
def toJson (text : String) : Json :=
  let value : Option Json :=
    match text.toList with
    | '0' :: 'x' :: hex => (integer? 16 hex).map Json.int
    | '0' :: 'X' :: hex => (integer? 16 hex).map Json.int
    | cs =>
      match integer? 10 cs with
      | some n => some (Json.int n)
      | none => (double? cs).map fun d => .number (.double d)
  value.getD (.string text)

/-! ## Numbers of JSON documents -/

/-- The greatest integer of 64 bits. -/
def greatest : Nat := Word.count 64 - 1

/-- Takes the digits of the whole part into a significand of 64 bits; the digits from the first that
does not fit are only counted. -/
def takeWhole : (digits : List Char) → (significand : Nat) → Nat × Nat
  | [], significand => (significand, 0)
  | c :: cs, significand =>
    let next := 10 * significand + (c.toNat - '0'.toNat)
    if next > greatest then (significand, cs.length + 1) else takeWhole cs next

/-- Takes the digits of the fraction into the significand until one does not fit; returns the number
of digits taken. -/
def takeFraction : (digits : List Char) → (significand : Nat) → Nat × Nat
  | [], significand => (significand, 0)
  | c :: cs, significand =>
    let next := 10 * significand + (c.toNat - '0'.toNat)
    if next > greatest then
      (significand, 0)
    else
      let (significand, taken) := takeFraction cs next
      (significand, taken + 1)

/-- Scales by `10 ^ exponent` in double arithmetic. Exponents below -308 are taken off in steps, at
most `steps` of them; more are only needed for zero. -/
def scale? (x : Double) (exponent : Int) : (steps : Nat) → Option Double
  | 0 => some x
  | steps + 1 => do
    if exponent.natAbs ≤ 308 then
      let power ← Double.ofDecimal? false 1 exponent.natAbs
      if exponent ≥ 0 then x.mul? power else x.div? power
    else if x.significand == 0 then
      some x
    else if exponent ≥ 0 then
      none
    else
      scale? (← x.div? (← Double.ofDecimal? false 1 308)) (exponent + 308) steps

/-- The double `significand * 10 ^ exponent` with a sign, computed in double arithmetic; `none`
where it is infinite. -/
def scaled? (negative : Bool) (significand : Nat) (exponent : Int) : Option Double := do
  let x ← Double.ofRatio? false significand 1
  let y ← scale? x exponent 4
  some { y with negative }

end Endpoints.Numeral
