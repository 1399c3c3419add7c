import Endpoints.Doc.Basic
import Endpoints.Token.Stream

/-! # Reading tokens

A `Cursor` is what is left of a token stream. Parsers pass it on and fail with a `SyntaxError` at
the current token. At the end of the file a cursor shows the closing token of the stream again and
again and does not move.

Parsers of nested or repeated parts take a number that bounds how far they may go; the number of
tokens gives one that is large enough (`Cursor.bound`). They are written for any monad that has the
operations of `MonadParser`; `Parser` is the one they run in.
-/

namespace Endpoints

/-- What a parser asks for. -/
inductive Expected where
  | mark (mark : Punct)
  | identifier
  | memberName
  | type
  | number
  | namespaceName
  | plainBody
deriving DecidableEq, Repr

def Expected.text : Expected → String
  | .mark m => "'" ++ m.text ++ "'"
  | identifier => "identifier"
  | memberName => "member name"
  | type => "type"
  | number => "numeric literal"
  | namespaceName => "namespace name"
  | plainBody => "interface body without mapped members"

/-- Why a source text has no syntax tree. -/
inductive SyntaxFault where
  | lexical (fault : LexFault)
  /-- Something else stands there; nothing at the end of the file. -/
  | expected (what : Expected) (found : Option String)
  | unbounded
deriving DecidableEq, Repr

def SyntaxFault.message : SyntaxFault → String
  | lexical fault => fault.message
  | expected what (some text) => "expected " ++ what.text ++ ", found '" ++ text ++ "'"
  | expected what none => "expected " ++ what.text ++ ", found end of file"
  | unbounded => "syntax is nested without bound"

/-- A fault and its line. -/
structure SyntaxError where
  line : Nat
  fault : SyntaxFault
deriving DecidableEq, Repr

/-- The tokens that are left, and the token that ends the stream. -/
structure Cursor where
  rest : List Token
  last : Token
deriving DecidableEq, Repr

namespace Cursor

/-- All tokens from the current one on, with the one that ends the stream. -/
def tokens (c : Cursor) : List Token := c.rest ++ [c.last]

/-- The current token. -/
def head (c : Cursor) : Token := c.rest.headD c.last

/-- The token `n` places after the current one. -/
def ahead (c : Cursor) (n : Nat) : Token := c.rest.getD n c.last

/-- The cursor after the current token. -/
def next (c : Cursor) : Cursor := { c with rest := c.rest.tail }

/-- Whether no token is left. -/
def atEnd (c : Cursor) : Bool := c.head.kind == .endOfFile

/-- Whether the token `n` places ahead is this mark. -/
def isMark (c : Cursor) (mark : Punct) (n : Nat := 0) : Bool := (c.ahead n).kind == .punct mark

/-- The token `n` places ahead, if it is a word. -/
def word? (c : Cursor) (n : Nat := 0) : Option String :=
  match (c.ahead n).kind with
  | .word text => some text
  | _ => none

/-- Whether the token `n` places ahead is this word. -/
def isWord (c : Cursor) (text : String) (n : Nat := 0) : Bool := c.word? n == some text

/-- Whether the token `n` places ahead is any word. -/
def hasWord (c : Cursor) (n : Nat := 0) : Bool := (c.word? n).isSome

/-- The tokens between this cursor and a later one. -/
def upTo (c later : Cursor) : List Token :=
  c.rest.take (c.rest.length - later.rest.length)

/-- A bound for the parsers on these tokens. -/
def bound (c : Cursor) : Nat := 8 * (c.rest.length + 2)

end Cursor

/-- The cursor at the first token of a stream. -/
def TokenStream.cursor (stream : TokenStream) : Cursor := ⟨stream.tokens, stream.last⟩

/-- The parsers that may call themselves before they are done, directly or through others. -/
inductive Routine where
  | commaList | afterEach | pathRest | modifiers
  | typeExpr | functionHead | functionType | returnType | typeParameters
  | typeParameter | typeArguments | unionType | intersectionType | postfixType | suffixes
  | primaryType | wordType | tupleElement | indexSignature | typeMembers | typeMembersRest
  | typeMember | signatureRest
  | expression | literal | arrayItems | objectEntries | objectValue
  | decorators | heritage | skipMemberRest | classMembers
  | importRest | statements | statement | namespaceDecl
deriving DecidableEq, Repr

/-- What a parser can do. -/
class MonadParser (m : Type → Type) extends Monad m where
  cursor : m Cursor
  moveTo : Cursor → m Unit
  reject {α : Type} : SyntaxError → m α
  enter {α : Type} : Routine → m α → m α
  /-- The source text from a cursor up to a later one. -/
  textBetween : (start stop : Cursor) → m String
  /-- One bracket less. -/
  lower : (depth : Nat) → m Nat

/-- A computation on a cursor that may fail. -/
def Parser (α : Type) := Cursor → Except SyntaxError (α × Cursor)

/-- The value of a parser at a cursor and the cursor after it, or the error. -/
def Parser.run {α : Type} (x : Parser α) (c : Cursor) : Except SyntaxError (α × Cursor) := x c

instance : MonadParser Parser where
  pure a := fun c => .ok (a, c)
  bind x f := fun c =>
    match x.run c with
    | .ok (a, c') => (f a).run c'
    | .error e => .error e
  cursor := fun c => .ok (c, c)
  moveTo c := fun _ => .ok ((), c)
  reject e := fun _ => .error e
  enter _ x := x
  textBetween start stop := fun c => .ok (Token.textOf (start.upTo stop), c)
  lower depth := fun c => .ok (depth - 1, c)

namespace Parser

open MonadParser

variable {m : Type → Type} [MonadParser m] {α : Type}

/-- Fails at the current token. -/
def fail (what : Expected) : m α := do
  let c ← cursor
  if c.head.kind = .endOfFile then
    reject ⟨c.head.line, .expected what none⟩
  else
    reject ⟨c.head.line, .expected what (some (← textBetween c c.next))⟩

/-- Fails because the bound is used up. -/
def unbounded : m α := do
  reject ⟨(← cursor).head.line, .unbounded⟩

/-- Goes to the next token and returns the one passed. -/
def advance : m Token := do
  let c ← cursor
  moveTo c.next
  return c.head

/-- Goes to the next token if the condition holds. -/
def advanceIf (condition : Bool) : m Unit :=
  if condition then discard advance else pure ()

/-- Passes the mark if it is the current token; says whether it was. -/
def eat (mark : Punct) : m Bool := do
  let c ← cursor
  if c.isMark mark then
    moveTo c.next
    return true
  else
    return false

/-- Passes the word if it is the current token; says whether it was. -/
def eatWord (text : String) : m Bool := do
  let c ← cursor
  if c.isWord text then
    moveTo c.next
    return true
  else
    return false

/-- Passes the mark, which must be the current token. -/
def expect (mark : Punct) : m Unit := do
  if ← eat mark then
    return
  else
    fail (.mark mark)

/-- Fails at the end of the file, where something is missing. -/
def expectMore (what : Expected) : m Unit := do
  if (← cursor).atEnd then
    fail what
  else
    return

/-- Passes a word and returns it. -/
def identifier : m String := do
  let c ← cursor
  match c.word? with
  | some text =>
    moveTo c.next
    return text
  | none => fail .identifier

/-- The name that a word, a string or a number gives. -/
def nameOf? : TokenKind → Option String
  | .word name | .string name | .number name => some name
  | _ => none

/-- Passes the name of a member: a word, a string or a number. -/
def memberName : m String := do
  let c ← cursor
  match nameOf? c.head.kind with
  | some name =>
    moveTo c.next
    return name
  | none => fail .memberName

/-- The documentation of the current token. -/
def doc : m (Option DocComment) := do
  return (← cursor).head.doc.map DocComment.parse

/-- The source text from a cursor up to the current one. -/
def textSince (start : Cursor) : m String := do
  textBetween start (← cursor)

/-- The part after this mark, if the mark is there. -/
def afterMark? (mark : Punct) (part : m α) : m (Option α) := do
  if ← eat mark then
    return some (← part)
  else
    return none

/-- The part after this word, if the word is there. -/
def afterWord? (text : String) (part : m α) : m (Option α) := do
  if ← eatWord text then
    return some (← part)
  else
    return none

/-- Parts separated by commas, up to a closing mark, which is not passed. A comma may stand after
the last part. -/
def commaList (close : Punct) (part : m α) : (bound : Nat) → m (List α)
  | 0 => unbounded
  | bound + 1 => enter .commaList do
    if (← cursor).isMark close then
      return []
    else
      let first ← part
      if ← eat .comma then
        return first :: (← commaList close part bound)
      else
        return [first]

/-- As many parts as there are, each after this mark. -/
def afterEach (mark : Punct) (part : m α) : (bound : Nat) → m (List α)
  | 0 => unbounded
  | bound + 1 => enter .afterEach do
    if ← eat mark then
      let first ← part
      return first :: (← afterEach mark part bound)
    else
      return []

/-- At least one part, with commas between them. -/
def commaSeparated (part : m α) (bound : Nat) : m (List α) := do
  let first ← part
  return first :: (← afterEach .comma part bound)

/-- An identifier with the identifiers after points, joined to one name. -/
def dottedName (bound : Nat) : m String := do
  let first ← identifier
  return ".".intercalate (first :: (← afterEach .dot identifier bound))

/-- The identifiers after points, as long as both are there. -/
def pathRest : (bound : Nat) → m (List String)
  | 0 => unbounded
  | bound + 1 => enter .pathRest do
    let c ← cursor
    match c.isMark .dot, c.word? 1 with
    | true, some part =>
      moveTo c.next.next
      return part :: (← pathRest bound)
    | _, _ => return []

/-- Passes words as long as `add?` takes them as modifiers of what follows. It is given what is
known of the modifiers before, the word and the cursor at it. -/
def modifiers (add? : α → String → Cursor → Option α) (known : α) : (bound : Nat) → m α
  | 0 => unbounded
  | bound + 1 => enter .modifiers do
    let c ← cursor
    match c.word?.bind (add? known · c) with
    | some more =>
      discard advance
      modifiers add? more bound
    | none => return known

end Parser

end Endpoints
