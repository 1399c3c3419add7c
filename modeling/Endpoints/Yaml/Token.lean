import Endpoints.Settings.Node
import Endpoints.Yaml.ScalarText

/-! # Tokens of YAML text

`Token.scan?` cuts a text into tokens. Indentation becomes tokens that open and close blocks. A
scalar or a bracket is known to be a key only when a colon follows it; until then it is pending, and
the tokens in front of it are put in afterwards.
-/

namespace Endpoints.Yaml

inductive Token where
  | openSequence
  | openMapping
  | closeBlock
  | entry
  | key
  | value
  | openList
  | closeList
  | openMap
  | closeMap
  | comma
  | scalar (node : Node)
  | documentStart
  | documentEnd

/-- A token that may turn out to start a key. -/
structure PendingKey where
  /-- How many tokens stand before it. -/
  index : Nat
  offset : Nat
  line : Nat
  column : Nat
  /-- Whether nothing else may stand there. -/
  required : Bool

/-- The state of a scan. -/
structure Scan where
  spot : Spot
  tokens : Array Token
  /-- The columns of the blocks that are open, innermost first. -/
  indents : List Nat
  keyAllowed : Bool
  /-- The pending key at this level of brackets. -/
  pending : Option PendingKey
  /-- The pending keys around the brackets that are open. -/
  outer : List (Option PendingKey)

namespace Scan

def ofText (text : String) : Scan := ⟨.ofText text, #[], [], true, none, []⟩

/-- Whether a bracket is open. -/
def inBrackets (s : Scan) : Bool := !s.outer.isEmpty

/-- The least column inside the innermost block. -/
def inner (s : Scan) : Nat :=
  match s.indents with
  | [] => 0
  | indent :: _ => indent + 1

def push (token : Token) (s : Scan) : Scan := { s with tokens := s.tokens.push token }

/-- Skips white space and comments up to the next token. Outside brackets a new line allows a
key. -/
def skipSpace (s : Scan) : (fuel : Nat) → Scan
  | 0 => s
  | fuel + 1 =>
    match s.spot.rest with
    | [] => s
    | c :: _ =>
      if c == ' ' || (c == '\t' && (s.inBrackets || !s.keyAllowed)) ||
          (c == '\ufeff' && s.spot.offset == 0) then
        skipSpace { s with spot := s.spot.skip 1 } fuel
      else if c == '#' then
        skipSpace { s with spot := s.spot.skip (s.spot.rest.takeWhile (!isBreak ·)).length } fuel
      else if isBreak c then
        skipSpace
          { s with spot := s.spot.nextLine, keyAllowed := s.keyAllowed || !s.inBrackets } fuel
      else
        s

/-! ## Pending keys -/

/-- Whether a key can not be completed any more: it has to stand on one line and to be short. -/
def isStale (s : Scan) (key : PendingKey) : Bool :=
  key.line < s.spot.line || key.offset + 1024 < s.spot.offset

/-- A pending key without those that can not be completed. -/
def refresh? (s : Scan) : Option PendingKey → Option (Option PendingKey)
  | none => some none
  | some key =>
    if s.isStale key then
      if key.required then none else some none
    else
      some (some key)

/-- Drops the keys that can not be completed. -/
def dropStale? (s : Scan) : Option Scan := do
  let pending ← s.refresh? s.pending
  let outer ← s.outer.mapM s.refresh?
  return { s with pending, outer }

/-- Gives up the pending key. -/
def dropKey? (s : Scan) : Option Scan :=
  if s.pending.any (·.required) then none else some { s with pending := none }

/-- Takes the next token for a possible key. -/
def saveKey? (s : Scan) : Option Scan :=
  if s.keyAllowed then do
    let required := !s.inBrackets && s.indents.head? == some s.spot.column
    let s ← s.dropKey?
    let key := ⟨s.tokens.size, s.spot.offset, s.spot.line, s.spot.column, required⟩
    return { s with pending := some key }
  else
    some s

/-! ## Blocks -/

/-- Closes the blocks that start right of a column. -/
def closeBlocks (column : Nat) (s : Scan) : Scan :=
  if s.inBrackets then s
  else
    let closed := s.indents.takeWhile (column < ·)
    { s with
      indents := s.indents.dropWhile (column < ·)
      tokens := s.tokens ++ Array.replicate closed.length .closeBlock }

/-- Opens a block at a column, unless one is open there. Its token is put before others from `index`
on. -/
def openBlock (column index : Nat) (token : Token) (s : Scan) : Scan :=
  if !s.inBrackets && s.inner ≤ column then
    { s with
      indents := column :: s.indents
      tokens := s.tokens.extract 0 index ++ #[token] ++ s.tokens.extract index s.tokens.size }
  else
    s

/-! ## Tokens -/

def openBracket? (token : Token) (s : Scan) : Option Scan := do
  let s ← s.saveKey?
  return { s.push token with
    spot := s.spot.skip 1, keyAllowed := true, pending := none, outer := s.pending :: s.outer }

def closeBracket? (token : Token) (s : Scan) : Option Scan := do
  let s ← s.dropKey?
  let s := { s.push token with spot := s.spot.skip 1, keyAllowed := false }
  match s.outer with
  | [] => return s
  | pending :: outer => return { s with pending, outer }

def comma? (s : Scan) : Option Scan := do
  let s ← s.dropKey?
  return { s.push .comma with spot := s.spot.skip 1, keyAllowed := true }

/-- A dash before an item. -/
def item? (s : Scan) : Option Scan := do
  if !s.inBrackets && !s.keyAllowed then none
  let s ← (s.openBlock s.spot.column s.tokens.size .openSequence).dropKey?
  return { s.push .entry with spot := s.spot.skip 1, keyAllowed := true }

/-- A question mark before a key. -/
def key? (s : Scan) : Option Scan := do
  if !s.inBrackets && !s.keyAllowed then none
  let s ← (s.openBlock s.spot.column s.tokens.size .openMapping).dropKey?
  return { s.push .key with spot := s.spot.skip 1, keyAllowed := !s.inBrackets }

/-- A colon before a value. -/
def value? (s : Scan) : Option Scan :=
  match s.pending with
  | some key =>
    let before := s.tokens.extract 0 key.index ++ #[.key]
    let after := s.tokens.extract key.index s.tokens.size
    let s := { s with tokens := before ++ after, pending := none }
    let s := s.openBlock key.column key.index .openMapping
    some { s.push .value with spot := s.spot.skip 1, keyAllowed := false }
  | none => do
    if !s.inBrackets && !s.keyAllowed then none
    let s := s.openBlock s.spot.column s.tokens.size .openMapping
    return { s.push .value with spot := s.spot.skip 1, keyAllowed := !s.inBrackets }

/-- A scalar in quotes. -/
def quotedScalar? (quote : Char) (s : Scan) : Option Scan := do
  let s ← s.saveKey?
  let (text, spot) ← quoted? quote [] s.spot.rest.length (s.spot.skip 1)
  return { s.push (.scalar (.string text)) with spot, keyAllowed := false }

/-- A scalar without quotes. -/
def plainScalar? (s : Scan) : Option Scan := do
  let s ← s.saveKey?
  let found ← plain? s.inBrackets s.inner [] .empty (s.spot.rest.length + 1) s.spot
  let token := Token.scalar (.plain (String.ofList found.text.reverse))
  return { s.push token with spot := found.after, keyAllowed := found.endsLine }

/-- A mark between documents. -/
def divider? (token : Token) (s : Scan) : Option Scan := do
  let tokens := s.tokens ++ Array.replicate s.indents.length .closeBlock
  let closed : Scan := { s with indents := [], tokens }
  let s ← closed.dropKey?
  return { s.push token with spot := s.spot.skip 3, keyAllowed := false }

/-- Whether a scalar without quotes can start with a character. -/
def startsPlain (s : Scan) (c : Char) (cs : List Char) : Bool :=
  if c == '-' then !cs.head?.any isBlank
  else if c == '?' || c == ':' then !s.inBrackets && !endsWord cs
  else !(isFlowMark c || ['#', '&', '*', '!', '|', '>', '\x27', '"', '%', '@', '\x60'].contains c)

/-- Reads the token that starts with a character. -/
def token? (s : Scan) (c : Char) (cs : List Char) : Option Scan :=
  if s.spot.isMark '-' then s.divider? .documentStart
  else if s.spot.isMark '.' then s.divider? .documentEnd
  else if c == '[' then s.openBracket? .openList
  else if c == '\x7b' then s.openBracket? .openMap
  else if c == ']' then s.closeBracket? .closeList
  else if c == '\x7d' then s.closeBracket? .closeMap
  else if c == ',' then s.comma?
  else if c == '-' && endsWord cs then s.item?
  else if c == '?' && (s.inBrackets || endsWord cs) then s.key?
  else if c == ':' && (s.inBrackets || endsWord cs) then s.value?
  else if c == '\x27' || c == '"' then s.quotedScalar? c
  else if s.startsPlain c cs then s.plainScalar?
  else none

/-- Reads all tokens. Every step reads a character, so that the number of characters is enough
fuel. -/
def run? : (fuel : Nat) → Scan → Option (Array Token)
  | 0, _ => none
  | fuel + 1, s => do
    let s ← (s.skipSpace s.spot.rest.length).dropStale?
    match s.spot.rest with
    | [] =>
      let s ← s.dropKey?
      return s.tokens ++ Array.replicate s.indents.length .closeBlock
    | c :: cs =>
      let s ← (s.closeBlocks s.spot.column).token? c cs
      run? fuel s

end Scan

def Token.scan? (text : String) : Option (List Token) :=
  if text.toList.all isAllowed then
    (Scan.run? (text.toList.length + 1) (.ofText text)).map Array.toList
  else
    none

end Endpoints.Yaml
