import Endpoints.Json.Numeral

/-! # Reading JSON text

A strict reader for JSON documents. Only space, tab, carriage return and line feed count as white
space, an escaped surrogate must have its partner, and arrays and objects nest to a depth of at most
`Json.maxDepth`. The value keeps the fields of objects as they stand in the text; `Json.parse?`
orders them.
-/

namespace Endpoints.Json

/-- The greatest depth to which arrays and objects may nest. -/
def maxDepth : Nat := 127

def skipBlanks (cs : List Char) : List Char :=
  cs.dropWhile fun c => c == ' ' || c == '\t' || c == '\r' || c == '\n'

/-- The number of four hexadecimal digits. -/
def hex4? : List Char → Option (Nat × List Char)
  | a :: b :: c :: d :: cs => (Numeral.natural? 16 [a, b, c, d]).map (·, cs)
  | _ => none

/-- The character of a `\u` escape, whose four digits have been read. -/
def unicode? (code : Nat) (cs : List Char) : Option (Char × List Char) :=
  if 0xD800 ≤ code && code < 0xDC00 then
    match cs with
    | '\\' :: 'u' :: cs => do
      let (low, cs) ← hex4? cs
      if 0xDC00 ≤ low && low < 0xE000 then
        some (Char.ofNat (0x10000 + (code - 0xD800) * 0x400 + (low - 0xDC00)), cs)
      else
        none
    | _ => none
  else if 0xDC00 ≤ code && code < 0xE000 then
    none
  else
    some (Char.ofNat code, cs)

/-- The character of an escape whose backslash has been read. -/
def escape? : List Char → Option (Char × List Char)
  | '"' :: cs => some ('"', cs)
  | '\\' :: cs => some ('\\', cs)
  | '/' :: cs => some ('/', cs)
  | 'b' :: cs => some ('\x08', cs)
  | 'f' :: cs => some ('\x0c', cs)
  | 'n' :: cs => some ('\n', cs)
  | 'r' :: cs => some ('\r', cs)
  | 't' :: cs => some ('\t', cs)
  | 'u' :: cs => do
    let (code, cs) ← hex4? cs
    unicode? code cs
  | _ => none

/-- The characters of a string up to its closing quote. Each step reads at least one character, so
the length of the text is enough fuel. -/
def stringBody? : (fuel : Nat) → List Char → Option (List Char × List Char)
  | 0, _ => none
  | _ + 1, [] => none
  | fuel + 1, c :: cs =>
    if c == '"' then
      some ([], cs)
    else if c == '\\' then do
      let (value, cs) ← escape? cs
      let (text, cs) ← stringBody? fuel cs
      some (value :: text, cs)
    else if c.toNat < 0x20 then
      none
    else do
      let (text, cs) ← stringBody? fuel cs
      some (c :: text, cs)

def string? (cs : List Char) : Option (String × List Char) :=
  (stringBody? (cs.length + 1) cs).map fun (text, cs) => (String.ofList text, cs)

/-- The digits of the whole part of a number: `0`, or digits that do not start with `0`. -/
def whole? : List Char → Option (List Char × List Char)
  | '0' :: cs => if (cs.head?.map Char.isDigit).getD false then none else some (['0'], cs)
  | cs =>
    let (digits, rest) := cs.span Char.isDigit
    if digits.isEmpty then none else some (digits, rest)

/-- The fraction of a number, without its point; `none` inside if there is no fraction. -/
def fraction? : List Char → Option (Option (List Char) × List Char)
  | '.' :: cs =>
    let (digits, rest) := cs.span Char.isDigit
    if digits.isEmpty then none else some (some digits, rest)
  | cs => some (none, cs)

/-- The exponent of a number; `none` inside if there is no exponent. -/
def exponent? : List Char → Option (Option Int × List Char)
  | c :: cs =>
    if c == 'e' || c == 'E' then do
      let (negative, cs) := Numeral.sign cs
      let (digits, rest) := cs.span Char.isDigit
      let n ← Numeral.natural? 10 digits
      some (some (if negative then -n else n), rest)
    else
      some (none, c :: cs)
  | [] => some (none, [])

/-- The value of a number from its parts. Integers stay integers where they fit 64 bits with or
without a sign; negative zero is a double. -/
def numberOf? (negative : Bool) (whole : List Char) (fraction : Option (List Char))
    (exponent : Option Int) : Option Number :=
  let n := whole.foldl (fun n c => 10 * n + (c.toNat - '0'.toNat)) 0
  if fraction.isNone && exponent.isNone && !negative && n ≤ Numeral.greatest then
    some (.integer n)
  else if fraction.isNone && exponent.isNone && negative && 0 < n && n ≤ Word.count 63 then
    some (.integer (-n))
  else
    let (significand, dropped) := Numeral.takeWhole whole 0
    let (significand, taken) := Numeral.takeFraction (fraction.getD []) significand
    let e := exponent.getD 0
    if e.natAbs ≥ Word.count 31 then
      if significand != 0 && e > 0 then none else some (.double (Double.zero negative))
    else
      (Numeral.scaled? negative significand (dropped - taken + e)).map .double

def number? (cs : List Char) : Option (Number × List Char) := do
  let (negative, cs) := match cs with
    | '-' :: cs => (true, cs)
    | cs => (false, cs)
  let (whole, cs) ← whole? cs
  let (fraction, cs) ← fraction? cs
  let (exponent, cs) ← exponent? cs
  let value ← numberOf? negative whole fraction exponent
  some (value, cs)

/-- The items of an array after its opening bracket, separated by commas, up to the closing bracket.
`first` says that no item has been read yet. -/
def items? (item : List Char → Option (Json × List Char)) :
    (fuel : Nat) → (first : Bool) → List Char → Option (List Json × List Char)
  | 0, _, _ => none
  | fuel + 1, first, cs =>
    match skipBlanks cs with
    | ']' :: rest => some ([], rest)
    | next => do
      let next ← if first then some next else match next with
        | ',' :: rest => some rest
        | _ => none
      let (value, rest) ← item next
      let (values, rest) ← items? item fuel false rest
      some (value :: values, rest)

/-- The fields of an object after its opening brace, separated by commas, up to the closing
brace. -/
def fields? (item : List Char → Option (Json × List Char)) :
    (fuel : Nat) → (first : Bool) → List Char → Option (List (String × Json) × List Char)
  | 0, _, _ => none
  | fuel + 1, first, cs =>
    match skipBlanks cs with
    | '}' :: rest => some ([], rest)
    | next => do
      let next ← if first then some next else match next with
        | ',' :: rest => some (skipBlanks rest)
        | _ => none
      match next with
      | '"' :: rest =>
        let (key, rest) ← string? rest
        match skipBlanks rest with
        | ':' :: rest =>
          let (value, rest) ← item rest
          let (fields, rest) ← fields? item fuel false rest
          some ((key, value) :: fields, rest)
        | _ => none
      | _ => none

/-- A value in which arrays and objects nest to a depth of at most `depth`, and the text after
it. -/
def value? : (depth : Nat) → List Char → Option (Json × List Char)
  | depth, cs =>
    match skipBlanks cs with
    | 'n' :: 'u' :: 'l' :: 'l' :: rest => some (.null, rest)
    | 't' :: 'r' :: 'u' :: 'e' :: rest => some (.bool true, rest)
    | 'f' :: 'a' :: 'l' :: 's' :: 'e' :: rest => some (.bool false, rest)
    | '"' :: rest => (string? rest).map fun (text, rest) => (.string text, rest)
    | '[' :: rest =>
      match depth with
      | 0 => none
      | depth + 1 =>
        (items? (value? depth) (rest.length + 1) true rest).map fun (items, rest) =>
          (.array items, rest)
    | '{' :: rest =>
      match depth with
      | 0 => none
      | depth + 1 =>
        (fields? (value? depth) (rest.length + 1) true rest).map fun (fields, rest) =>
          (.object fields, rest)
    | next => (number? next).map fun (value, rest) => (.number value, rest)

/-- The document that a text writes, fields in the order of the text and repeats kept. -/
def parseRaw? (text : String) : Option Json := do
  let (value, rest) ← value? maxDepth text.toList
  if (skipBlanks rest).isEmpty then some value else none

/-- The value that a text writes. -/
def parse? (text : String) : Option Json :=
  (parseRaw? text).map normalize

/-- The value that a text writes, or the text itself where it writes none. -/
def ofText (text : String) : Json :=
  (parse? text).getD (.string text)

end Endpoints.Json
