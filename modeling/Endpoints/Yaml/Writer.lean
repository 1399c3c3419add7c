import Endpoints.Yaml.Character
import Endpoints.Yaml.Scalar

/-! # Writing YAML text

`Yaml.write` writes a document in block style. A text is written without quotes where it can be, as
a literal block if it has several lines, and else in quotes. Lines are never folded.
-/

namespace Endpoints.Yaml

/-! ## Texts -/

/-- Positional notation from `0.00001` up to sixteen digits before the point, otherwise an exponent,
which has no sign if it is positive. -/
def doubleLayout : Double.Layout := ⟨-4, 16, false⟩

/-- Whether a text without quotes would be read as something else than a text. -/
def isAmbiguous (text : String) : Bool :=
  isNull text || (bool? text).isSome || hasExtraZero text.toList || isUnbounded text ||
  (Numeral.double? text.toList).isSome ||
  (integer? text).any (Word.fits 128)

/-- Whether the first character of a text keeps it from being written without quotes. -/
def startsBadly : List Char → Bool
  | [] => false
  | c :: cs =>
    ['#', ',', '[', ']', '{', '}', '&', '*', '!', '|', '>', '\x27', '"', '%', '@',
      '\x60'].contains c ||
    ((c == '?' || c == ':' || c == '-') && endsWord cs)

/-- Whether a colon before white space or a hash sign after it stands behind the first character. -/
def hasIndicator : (before : Char) → List Char → Bool
  | _, [] => false
  | before, c :: cs =>
    (c == ':' && endsWord cs) || (c == '#' && isGap before) || hasIndicator c cs

/-- Whether two characters with these properties follow each other. -/
def adjacent (p q : Char → Bool) : List Char → Bool
  | c :: d :: cs => (p c && q d) || adjacent p q (d :: cs)
  | _ => false

/-- Whether a text starts like a mark between documents. -/
def startsLikeMark : List Char → Bool
  | '-' :: '-' :: '-' :: _ => true
  | '.' :: '.' :: '.' :: _ => true
  | _ => false

/-- Whether a text has a space or a line end at its ends. -/
def hasOuterSpace (cs : List Char) : Bool :=
  let outer := fun c => c == ' ' || isBreak c
  cs.head?.any outer || cs.getLast?.any outer

/-- Whether a text can be written without quotes. -/
def allowsPlain (cs : List Char) : Bool :=
  match cs with
  | [] => true
  | first :: rest =>
    !(startsLikeMark cs || startsBadly cs || hasIndicator first rest || hasOuterSpace cs ||
      cs.any isBreak || cs.any (!isPrintable ·))

/-- Whether a text can be written in single quotes. -/
def allowsSingleQuotes (cs : List Char) : Bool :=
  !(adjacent isBreak (· == ' ') cs || adjacent (· == ' ') isBreak cs || cs.any (!isPrintable ·))

/-- Whether a text can be written as a literal block. -/
def allowsBlock (cs : List Char) : Bool :=
  !(cs.getLast? == some ' ' || adjacent (· == ' ') isBreak cs || cs.any (!isPrintable ·))

/-- How a text is written. -/
inductive Style where
  | plain | single | double | literal
deriving DecidableEq, Repr

def style (text : String) : Style :=
  let cs := text.toList
  if cs.contains '\n' then
    if allowsBlock cs then .literal else .double
  else if !isAmbiguous text && allowsPlain cs then .plain
  else if allowsSingleQuotes cs then .single
  else .double

def spaces (n : Nat) : List Char := List.replicate n ' '

/-- The characters of a text with `indent` spaces at the start of every line that is not empty.
`fresh` says that a line starts here. -/
def indented (indent : Nat) : (fresh : Bool) → List Char → List Char
  | _, [] => []
  | fresh, c :: cs =>
    if isBreak c then c :: indented indent true cs
    else if fresh then spaces indent ++ c :: indented indent false cs
    else c :: indented indent false cs

/-- A hexadecimal digit in upper case. -/
def hexDigit (n : Nat) : Char :=
  if n < 10 then Char.ofNat ('0'.toNat + n) else Char.ofNat ('A'.toNat + n - 10)

/-- The last `width` hexadecimal digits of a number. -/
def hexDigits (n : Nat) : (width : Nat) → List Char
  | 0 => []
  | width + 1 => hexDigits (n / 16) width ++ [hexDigit (n % 16)]

/-- A character in double quotes. -/
def escapeChar (c : Char) : List Char :=
  match c with
  | '\x00' => ['\\', '0']
  | '\x07' => ['\\', 'a']
  | '\x08' => ['\\', 'b']
  | '\t' => ['\\', 't']
  | '\n' => ['\\', 'n']
  | '\x0b' => ['\\', 'v']
  | '\x0c' => ['\\', 'f']
  | '\r' => ['\\', 'r']
  | '\x1b' => ['\\', 'e']
  | '"' => ['\\', '"']
  | '\\' => ['\\', '\\']
  | '\x85' => ['\\', 'N']
  | '\u2028' => ['\\', 'L']
  | '\u2029' => ['\\', 'P']
  | c =>
    let n := c.toNat
    if isPrintable c then [c]
    else if n ≤ 0xFF then '\\' :: 'x' :: hexDigits n 2
    else if n ≤ 0xFFFF then '\\' :: 'u' :: hexDigits n 4
    else '\\' :: 'U' :: hexDigits n 8

/-- The marks of a literal block: the indentation if the text starts with white space, and how the
line ends at its end are kept. -/
def blockHints (cs : List Char) : List Char :=
  let indentation := if cs.head?.any fun c => c == ' ' || isBreak c then ['2'] else []
  let ending := match cs.reverse with
    | [] => ['-']
    | [c] => if isBreak c then ['+'] else ['-']
    | c :: d :: _ => if !isBreak c then ['-'] else if isBreak d then ['+'] else []
  indentation ++ ending

/-- A text; lines after the first are indented. -/
def writeText (indent : Nat) (text : String) : List Char :=
  let cs := text.toList
  match style text with
  | .plain => cs
  | .single =>
    let quoted := cs.flatMap fun c => if c == '\x27' then ['\x27', '\x27'] else [c]
    '\x27' :: indented indent false quoted ++ ['\x27']
  | .double => '"' :: cs.flatMap escapeChar ++ ['"']
  | .literal => '|' :: blockHints cs ++ '\n' :: indented indent true cs

/-! ## Documents -/

/-- Appends parts on lines of their own, indented. A part that ends its line needs no further line
end. -/
def joinLines (indent : Nat) : List (List Char) → List Char
  | [] => []
  | [part] => part
  | part :: parts =>
    let lineEnd := if part.getLast? == some '\n' then [] else ['\n']
    part ++ lineEnd ++ spaces indent ++ joinLines indent parts

/-- Whether a key stands on one line with its value: it has one line and at most 128 bytes. -/
def isSimpleKey (key : String) : Bool :=
  !key.toList.any isBreak && key.utf8ByteSize ≤ 128

/-- A value that is written on the line of its key or of its dash. -/
def inline? (indent : Nat) : Json → Option (List Char)
  | .null => some "null".toList
  | .bool value => some (if value then "true" else "false").toList
  | .number (.integer n) => some (toString n).toList
  | .number (.double d) => some (d.text doubleLayout).toList
  | .string text => some (writeText indent text)
  | .array [] => some ['[', ']']
  | .object [] => some ['{', '}']
  | _ => none

mutual

/-- A value at an indentation; the first line is not indented. -/
def block (indent : Nat) : Json → List Char
  | .array (item :: items) => joinLines indent (writeItems indent (item :: items))
  | .object (field :: fields) => joinLines indent (writeFields indent (field :: fields))
  | value => (inline? indent value).getD []

/-- The items of a list, each after a dash. -/
def writeItems (indent : Nat) : List Json → List (List Char)
  | [] => []
  | item :: items => ('-' :: ' ' :: block (indent + 2) item) :: writeItems indent items

/-- The fields of a map, each after its key. -/
def writeFields (indent : Nat) : List (String × Json) → List (List Char)
  | [] => []
  | (key, value) :: fields =>
    let name := writeText (indent + 2) key
    let text :=
      if isSimpleKey key then
        match value with
        | .array (item :: items) =>
          name ++ ':' :: '\n' :: spaces indent ++
            joinLines indent (writeItems indent (item :: items))
        | .object (field :: more) =>
          name ++ ':' :: '\n' :: spaces (indent + 2) ++
            joinLines (indent + 2) (writeFields (indent + 2) (field :: more))
        | value => name ++ ':' :: ' ' :: (inline? (indent + 2) value).getD []
      else
        joinLines indent ['?' :: ' ' :: name, ':' :: ' ' :: block (indent + 2) value]
    text :: writeFields indent fields

end

/-- The text of a document. -/
def write (document : Json) : String :=
  let text := block 0 document
  String.ofList (if text.getLast? == some '\n' then text else text ++ ['\n'])

end Endpoints.Yaml
