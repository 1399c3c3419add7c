import Endpoints.Json.Numeral
import Endpoints.Yaml.Spot

/-! # Scalars of YAML text

Scalars with and without quotes. A scalar may have several lines, which are folded to one.
-/

namespace Endpoints.Yaml

/-! ## Scalars in quotes -/

/-- The character that a letter after a backslash stands for. -/
def escaped? : Char → Option Char
  | '0' => some '\x00'
  | 'a' => some '\x07'
  | 'b' => some '\x08'
  | 't' => some '\t'
  | '\t' => some '\t'
  | 'n' => some '\n'
  | 'v' => some '\x0b'
  | 'f' => some '\x0c'
  | 'r' => some '\r'
  | 'e' => some '\x1b'
  | ' ' => some ' '
  | '"' => some '"'
  | '/' => some '/'
  | '\\' => some '\\'
  | 'N' => some '\x85'
  | '_' => some '\xa0'
  | 'L' => some '\u2028'
  | 'P' => some '\u2029'
  | _ => none

/-- The number of hexadecimal digits after a letter that starts a code. -/
def codeLength? : Char → Option Nat
  | 'x' => some 2
  | 'u' => some 4
  | 'U' => some 8
  | _ => none

/-- A character by its code of so many hexadecimal digits. -/
def coded? (length : Nat) (cs : List Char) : Option Char := do
  let digits := cs.take length
  if digits.length != length then none
  let n ← (digits.mapM (Numeral.digit? 16)).map fun ds => ds.foldl (fun n d => 16 * n + d) 0
  if n.isValidChar then some (Char.ofNat n) else none

/-- A character after a backslash, and the number of characters that it takes. -/
def escape? : List Char → Option (Char × Nat)
  | [] => none
  | c :: cs =>
    match codeLength? c with
    | some length => (coded? length cs).map (·, length + 1)
    | none => (escaped? c).map (·, 1)

/-- Reads a scalar in quotes up to its end. `text` has what was read before, last character
first. -/
def quoted? (quote : Char) (text : List Char) : (fuel : Nat) → Spot → Option (String × Spot)
  | 0, _ => none
  | fuel + 1, s =>
    match s.rest with
    | [] => none
    | c :: cs =>
      if s.isDivider then none
      else if isBlank c || isBreak c then do
        let (gap, s) ← Gap.empty.read? 0 s.rest.length s
        quoted? quote (gap.fold.reverse ++ text) fuel s
      else if c == quote then
        if quote == '\x27' && cs.head? == some '\x27' then
          quoted? quote ('\x27' :: text) fuel (s.skip 2)
        else some (String.ofList text.reverse, s.skip 1)
      else if quote == '"' && c == '\\' then
        if cs.head?.any isBreak then do
          let (gap, s) ← Gap.empty.read? 0 s.rest.length (s.skip 1)
          quoted? quote ((gap.breaks.drop 1).reverse ++ text) fuel s
        else do
          let (d, length) ← escape? cs
          quoted? quote (d :: text) fuel (s.skip (length + 1))
      else
        quoted? quote (c :: text) fuel (s.skip 1)

/-! ## Scalars without quotes -/

/-- Whether a character ends a scalar inside brackets. -/
def isFlowMark (c : Char) : Bool :=
  [',', '[', ']', '\x7b', '\x7d'].contains c

/-- The characters of a word, and the position after it. Inside brackets a colon before a mark is an
error. -/
def word? (inBrackets : Bool) (text : List Char) : (fuel : Nat) → Spot → Option (List Char × Spot)
  | 0, s => some (text, s)
  | fuel + 1, s =>
    match s.rest with
    | [] => some (text, s)
    | c :: cs =>
      if isGap c then some (text, s)
      else if inBrackets && c == ':' && cs.head?.any (fun d => isFlowMark d || d == '?') then none
      else if (c == ':' && endsWord cs) || (inBrackets && isFlowMark c) then some (text, s)
      else word? inBrackets (c :: text) fuel (s.skip 1)

/-- A scalar without quotes. -/
structure PlainScalar where
  /-- Its characters, last one first. -/
  text : List Char
  after : Spot
  endsLine : Bool

/-- Reads a scalar without quotes. Outside brackets it ends before column `indent`. `gap` is what
stands before the next word. -/
def plain? (inBrackets : Bool) (indent : Nat) (text : List Char) (gap : Gap) :
    (fuel : Nat) → Spot → Option PlainScalar
  | 0, _ => none
  | fuel + 1, s =>
    let stop : PlainScalar := ⟨text, s, !gap.breaks.isEmpty⟩
    if s.isDivider || s.rest.head? == some '#' ||
        (!inBrackets && !gap.breaks.isEmpty && s.column < indent) then
      some stop
    else do
      let (found, after) ← word? inBrackets [] s.rest.length s
      if found.isEmpty then
        some stop
      else
        let text := found ++ gap.fold.reverse ++ text
        let (gap, next) ← Gap.empty.read? indent after.rest.length after
        if gap.blanks.isEmpty && gap.breaks.isEmpty then
          some ⟨text, next, false⟩
        else
          plain? inBrackets indent text gap fuel next

end Endpoints.Yaml
