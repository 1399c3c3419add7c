import Endpoints.Syntax.Cursor

/-! # Skipping over tokens

Statements, function bodies and expressions that are not modelled are skipped by counting brackets.
A `Judge` says of each token what it means for the skipping; `Parser.scan` goes along the tokens.
Two loops count on their own: `Brackets.passBody` passes the body of a function and sees on the way
whether it returns a value, and `Brackets.arrowBehind` looks past a group without moving.
-/

namespace Endpoints.Brackets

/-- What a token means for the skipping. -/
inductive Verdict where
  /-- It is skipped. -/
  | pass
  /-- It is skipped, and one more bracket is open. -/
  | opens
  /-- It is skipped, and one bracket less is open. -/
  | closes
  /-- Skipping ends before it. -/
  | before
  /-- Skipping ends after it. -/
  | after
deriving DecidableEq, Repr

/-- Says what a token means, by the kind of the token before it if that has been skipped too, by the
number of open brackets and by the token after it. -/
abbrev Judge :=
  (previous : Option TokenKind) → (depth : Nat) → Token → (next : Option Token) → Verdict

/-- A group ends after the bracket that closes it: the first closing bracket after which as many
brackets have been closed as opened. A group that is not closed ends at the end of the file. -/
def group : Judge := fun _ depth token _ =>
  match token.kind with
  | .punct mark =>
    if mark.opens then .opens
    else if mark.closes then if depth ≤ 1 then .after else .closes
    else .pass
  | .endOfFile => .before
  | _ => .pass

/-- Whether a `return` before this token is bare: it ends here, or the token stands on a later
line. -/
def endsReturn (next : Token) : Bool :=
  next.kind == .punct .semicolon || next.kind == .punct .rightBrace || next.kind == .endOfFile ||
    next.freshLine

/-- Passes the tokens of a body, `depth` brackets being open. `returns` says whether a `return`
before them has a value, and `last` is the token behind all of them. The result says whether any
`return` has a value, and gives the tokens that are left. -/
def passBody (last : Token) (depth : Nat) (returns : Bool) : List Token → Bool × List Token
  | [] => (returns, [])
  | token :: tokens =>
    match token.kind with
    | .endOfFile => (returns, token :: tokens)
    | .punct mark =>
      if mark.opens then
        passBody last (depth + 1) returns tokens
      else if mark.closes then
        if depth - 1 = 0 then (returns, tokens) else passBody last (depth - 1) returns tokens
      else
        passBody last depth returns tokens
    | .word text =>
      let valued := text == "return" && !endsReturn (tokens.headD last)
      passBody last depth (returns || valued) tokens
    | _ => passBody last depth returns tokens

/-- Whether an arrow stands behind the bracket that closes a group, which is looked for from `index`
on, `depth` brackets being open before it. There is none if the file ends first. -/
def arrowBehind (tokens : List Token) (depth index : Nat) : Bool :=
  if _ : index < tokens.length then
    match tokens[index].kind with
    | .punct mark =>
      if mark.opens then
        arrowBehind tokens (depth + 1) (index + 1)
      else if mark.closes then
        if depth - 1 = 0 then (tokens[index + 1]?).map Token.kind == some (.punct .arrow)
        else arrowBehind tokens (depth - 1) (index + 1)
      else
        arrowBehind tokens depth (index + 1)
    | .endOfFile => false
    | _ => arrowBehind tokens depth (index + 1)
  else
    false
termination_by tokens.length - index

/-- Whether an expression goes on after this token. -/
def continuesAfter : TokenKind → Bool
  | .punct mark => !mark.closes
  | _ => false

/-- Whether an expression that a brace seems to have ended goes on with this token. -/
def continuesWith : TokenKind → Bool
  | .punct mark => !(mark = .atSign || mark = .hash || mark = .semicolon || mark = .rightBrace)
  | .word text => text == "as" || text == "satisfies"
  | _ => false

/-- Words that start a declaration. -/
def declarationWords : List String :=
  ["export", "import", "class", "interface", "type", "enum", "namespace", "module", "declare",
   "abstract", "function", "const", "let", "var"]

/-- Whether a declaration can start with this token. -/
def startsDeclaration : TokenKind → Bool
  | .word text => declarationWords.contains text
  | .punct mark => mark = .atSign
  | _ => false

/-- Whether the token is the first of a line that does not go on with what stands before it. -/
def startsLine (previous : Option TokenKind) (token : Token) : Bool :=
  token.freshLine && !(previous.all continuesAfter)

/-- A statement of any kind ends with a semicolon, before a closing bracket of an enclosing block,
after a brace that ends a line, or before a line that starts a declaration. -/
def statement : Judge := fun previous depth token next =>
  match token.kind with
  | .punct mark =>
    if depth = 0 && mark = .semicolon then .after
    else if mark.opens then .opens
    else if mark.closes then
      if depth = 0 then
        if previous.isNone then .after else .before
      else if depth = 1 && mark = .rightBrace &&
          next.any (fun t => t.freshLine && !continuesWith t.kind) then .after
      else .closes
    else if depth = 0 && mark = .atSign && startsLine previous token then .before
    else .pass
  | kind =>
    if depth = 0 && startsDeclaration kind && startsLine previous token then .before else .pass

/-- An expression that is kept as its text ends before a comma, a semicolon or a closing bracket,
and, if `lineEnds`, before a line that starts with a word, a string, `@` or `#`. -/
def rawExpression (lineEnds : Bool) : Judge := fun previous depth token _ =>
  let newLine := depth = 0 && lineEnds && startsLine previous token
  match token.kind with
  | .punct mark =>
    if depth = 0 && (mark = .comma || mark = .semicolon || mark.closes) then .before
    else if newLine && (mark = .atSign || mark = .hash) then .before
    else if mark.opens then .opens
    else if mark.closes then .closes
    else .pass
  | .word _ | .string _ => if newLine then .before else .pass
  | _ => .pass

/-- A type literal ends after the brace that closes it. -/
def typeLiteral : Judge := fun _ depth token _ =>
  match token.kind with
  | .punct .leftBrace => .opens
  | .punct .rightBrace => if depth ≤ 1 then .after else .closes
  | _ => .pass

end Endpoints.Brackets

namespace Endpoints.Parser

open MonadParser Brackets

variable {m : Type → Type} [MonadParser m]

/-- The tokens that are left where skipping ends. -/
def scan (judge : Judge) :
    (previous : Option TokenKind) → (depth : Nat) → List Token → m (List Token)
  | _, _, [] => return []
  | previous, depth, token :: tokens =>
    match judge previous depth token tokens.head? with
    | .pass => scan judge (some token.kind) depth tokens
    | .opens => scan judge (some token.kind) (depth + 1) tokens
    | .closes => do scan judge (some token.kind) (← lower depth) tokens
    | .before => return token :: tokens
    | .after => return tokens

/-- Skips tokens, `depth` brackets being open. -/
def skip (judge : Judge) (depth : Nat) : m Unit := do
  let c ← cursor
  moveTo { c with rest := ← scan judge none depth c.rest }

/-- Passes the group of brackets that starts here. -/
def skipGroup : m Unit := skip group 0

/-- Passes the body that starts here; says whether a `return` in it has a value. -/
def skipBody : m Bool := do
  let c ← cursor
  let (returns, rest) := passBody c.last 0 false c.rest
  moveTo { c with rest }
  return returns

/-- Passes the parentheses that start here, if some do. -/
def skipParens : m Unit := do
  if (← cursor).isMark .leftParen then skipGroup else pure ()

/-- Passes one statement of any kind. -/
def skipStatement : m Unit := skip statement 0

/-- Passes the rest of a type literal whose opening brace has been passed. -/
def skipTypeLiteral : m Unit := skip typeLiteral 1

/-- Passes an expression and returns its text. -/
def rawText (lineEnds : Bool) : m String := do
  let start ← cursor
  skip (rawExpression lineEnds) 0
  textSince start

/-- Whether parentheses start here that hold the parameters of a function type. -/
def startsFunction : m Bool := do
  let c ← cursor
  return c.isMark .leftParen && arrowBehind c.tokens 0 0

end Endpoints.Parser
