import Endpoints.Json.Numeral

/-! # Plain scalars of YAML

What a scalar without quotes stands for: null, a truth value, a number, or its own text.
-/

namespace Endpoints.Yaml

/-- The words for null. -/
def nullWords : List String := ["~", "null", "Null", "NULL"]

def isNull (text : String) : Bool :=
  text.isEmpty || nullWords.contains text

/-- The truth value of a plain scalar. -/
def bool? (text : String) : Option Bool :=
  if ["true", "True", "TRUE"].contains text then some true
  else if ["false", "False", "FALSE"].contains text then some false
  else none

/-- A text without its first sign. -/
def dropSign : List Char → List Char
  | '-' :: cs => cs
  | '+' :: cs => cs
  | cs => cs

/-- Whether a text has digits only, but a zero in front that no number has. -/
def hasExtraZero (cs : List Char) : Bool :=
  match dropSign cs with
  | '0' :: c :: rest => (c :: rest).all Char.isDigit
  | _ => false

/-- The marks of bases. -/
def radix? : List Char → Option (Nat × List Char)
  | '0' :: 'x' :: cs => some (16, cs)
  | '0' :: 'o' :: cs => some (8, cs)
  | '0' :: 'b' :: cs => some (2, cs)
  | _ => none

/-- An integer of any size, with an optional sign and mark of a base. -/
def integer? (text : String) : Option Int :=
  let cs := text.toList
  let (negative, digits) := Numeral.sign cs
  let n := match radix? digits with
    | some (base, digits) => Numeral.natural? base digits
    | none => if hasExtraZero cs then none else Numeral.natural? 10 digits
  n.map fun n => if negative then -n else n

/-- The words for infinity and for not-a-number. -/
def isUnbounded (text : String) : Bool :=
  [".inf", ".Inf", ".INF", "+.inf", "+.Inf", "+.INF", "-.inf", "-.Inf", "-.INF",
   ".nan", ".NaN", ".NAN"].contains text

/-- What a plain scalar stands for. Numbers that are infinite become null. `none` for an integer
that 64 bits can not hold. -/
def plainValue? (text : String) : Option Json :=
  if isNull text then
    some .null
  else
    match bool? text, integer? text with
    | some value, _ => some (.bool value)
    | none, some n => if Word.fits 64 n then some (.int n) else none
    | none, none =>
      if hasExtraZero text.toList then some (.string text)
      else if isUnbounded text then some .null
      else
        match Numeral.double? text.toList with
        | some d => some (.number (.double d))
        | none => some (.string text)

end Endpoints.Yaml
