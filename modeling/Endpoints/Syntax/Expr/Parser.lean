import Endpoints.Syntax.Expr
import Endpoints.Syntax.Type.Parser

/-! # Parsing expressions

`Parser.expression` reads a literal expression. Where the text goes on in a way that no literal
allows, the whole expression is read again and kept as its text.
-/

namespace Endpoints.Parser

open MonadParser

variable {m : Type → Type} [MonadParser m]

/-- Whether an expression can end before the current token. If `lineEnds`, a new line that starts
with a word, a string, `@` or `#` ends it. -/
def expressionEnds (lineEnds : Bool) (c : Cursor) : Bool :=
  let newLine := lineEnds && c.head.freshLine
  match c.head.kind with
  | .endOfFile => true
  | .punct mark =>
    mark = .comma || mark = .semicolon || mark.closes ||
      (newLine && (mark = .atSign || mark = .hash))
  | .word _ | .string _ => newLine
  | _ => false

/-- Whether a template literal has no substitution, so that it is a plain string. -/
def isPlainTemplate (raw : String) : Bool :=
  !Text.occursIn ['$', '{'] raw.toList

/-- Passes a type after `as` or `satisfies`, if one of these stands here. -/
def typeAssertion (bound : Nat) : m Unit := do
  let c ← cursor
  if c.isWord "as" || c.isWord "satisfies" then
    discard advance
    discard (typeExpr bound)
  else
    return

mutual

def expression (bound : Nat) (lineEnds : Bool) : m Expr :=
  match bound with
  | 0 => unbounded
  | bound + 1 => enter .expression do
    let start ← cursor
    match ← literal bound with
    | some value =>
      typeAssertion bound
      if expressionEnds lineEnds (← cursor) then
        return value
      else
        moveTo start
        return .raw (← rawText lineEnds)
    | none =>
      moveTo start
      return .raw (← rawText lineEnds)

/-- A literal; `none` where no literal stands, with some tokens passed. -/
def literal : (bound : Nat) → m (Option Expr)
  | 0 => unbounded
  | bound + 1 => enter .literal do
    let c ← cursor
    match c.head.kind with
    | .string value =>
      discard advance
      return some (.string value)
    | .template raw =>
      if isPlainTemplate raw then
        discard advance
        return some (.string raw)
      else
        return none
    | .number text =>
      discard advance
      return some (.number text)
    | .punct .minus =>
      match (c.ahead 1).kind with
      | .number text =>
        moveTo c.next.next
        return some (.number ("-" ++ text))
      | _ => return none
    | .punct .plus =>
      match (c.ahead 1).kind with
      | .number text =>
        moveTo c.next.next
        return some (.number text)
      | _ => return none
    | .word "true" =>
      discard advance
      return some (.bool true)
    | .word "false" =>
      discard advance
      return some (.bool false)
    | .word "null" =>
      discard advance
      return some .null
    | .word "undefined" =>
      discard advance
      return some .undefined
    | .word word =>
      discard advance
      return some (.path (".".intercalate (word :: (← pathRest bound))))
    | .punct .leftBracket =>
      discard advance
      match ← arrayItems bound with
      | some items => return if ← eat .rightBracket then some (.array items) else none
      | none => return none
    | .punct .leftBrace =>
      discard advance
      match ← objectEntries bound with
      | some entries => return if ← eat .rightBrace then some (.object entries) else none
      | none => return none
    | _ => return none

def arrayItems : (bound : Nat) → m (Option (List Expr))
  | 0 => unbounded
  | bound + 1 => enter .arrayItems do
    let c ← cursor
    if c.isMark .rightBracket then
      return some []
    else if c.atEnd || c.isMark .ellipsis then
      return none
    else
      let item ← expression bound false
      if ← eat .comma then
        return (← arrayItems bound).map (item :: ·)
      else
        return some [item]

/-- The entries of an object literal. A key alone stands for the variable of its name. -/
def objectEntries : (bound : Nat) → m (Option (List (String × Expr)))
  | 0 => unbounded
  | bound + 1 => enter .objectEntries do
    let c ← cursor
    if c.isMark .rightBrace then
      return some []
    else
      match nameOf? c.head.kind with
      | none => return none
      | some key =>
        discard advance
        match ← objectValue bound key with
        | none => return none
        | some value =>
          if ← eat .comma then
            return (← objectEntries bound).map ((key, value) :: ·)
          else
            return some [(key, value)]

/-- What stands after a key of an object literal. -/
def objectValue (bound : Nat) (key : String) : m (Option Expr) :=
  match bound with
  | 0 => unbounded
  | bound + 1 => enter .objectValue do
    if ← eat .colon then
      return some (← expression bound false)
    else
      let c ← cursor
      if c.isMark .comma || c.isMark .rightBrace then
        return some (.path key)
      else
        return none

end

end Endpoints.Parser
