import Endpoints.Syntax.Brackets
import Endpoints.Syntax.Type

/-! # Parsing type expressions

`Parser.typeExpr` reads a type expression. Unions bind weaker than intersections, these weaker than
the array suffix `[]`. Function types, conditional types, indexed accesses and mapped types are read
and kept as their text. All parsers here call each other with a smaller bound.
-/

namespace Endpoints.Parser

open MonadParser

variable {m : Type → Type} [MonadParser m]

/-- A union or intersection of the members, or the member itself if there is one. -/
def compound (make : List TypeExpr → TypeExpr) : List TypeExpr → TypeExpr
  | [type] => type
  | types => make types

/-- Whether a word is a modifier of the member that follows it and not the name of a member. -/
def readonlyIsModifier (c : Cursor) : Bool :=
  c.isWord "readonly" &&
    match (c.ahead 1).kind with
    | .punct mark =>
      !(mark = .colon || mark = .question || mark = .leftParen || mark = .semicolon ||
        mark = .comma)
    | _ => true

/-- Whether a word is a modifier of the type parameter after it. -/
def typeParameterModifier? (_ : Unit) (word : String) (c : Cursor) : Option Unit :=
  if (word == "const" || word == "in" || word == "out") && c.hasWord 1 then some () else none

/-- Passes the name of a tuple element with its question mark and colon, if it has one. -/
def tupleLabel : m Unit := do
  let c ← cursor
  if c.hasWord && (c.isMark .colon 1 || (c.isMark .question 1 && c.isMark .colon 2)) then
    discard advance
    discard (eat .question)
    discard advance
  else
    return

/-- Passes a sign and the `readonly` after it, as mapped types have them. -/
def signedReadonly : m Unit := do
  let c ← cursor
  if (c.isMark .minus || c.isMark .plus) && c.isWord "readonly" 1 then
    moveTo c.next.next
  else
    return

mutual

def typeExpr : (bound : Nat) → m TypeExpr
  | 0 => unbounded
  | bound + 1 => enter .typeExpr do
    let start ← cursor
    if start.isMark .less || start.isWord "new" || start.isWord "abstract" then
      functionHead bound
      functionType bound start
    else if ← startsFunction then
      functionType bound start
    else
      let type ← unionType bound
      let c ← cursor
      if c.isWord "extends" && !c.head.freshLine then
        discard advance
        discard (unionType bound)
        expect .question
        discard (typeExpr bound)
        expect .colon
        discard (typeExpr bound)
        return .unsupported (← textSince start)
      else
        return type

/-- What stands before the parameters of a function type: type parameters and the words `new` and
`abstract`. -/
def functionHead : (bound : Nat) → m Unit
  | 0 => unbounded
  | bound + 1 => enter .functionHead do
    let c ← cursor
    if c.isMark .leftParen || c.atEnd then
      return
    else if c.isMark .less then
      discard (typeParameters bound)
      functionHead bound
    else
      discard advance
      functionHead bound

/-- The parameters and the result of a function type that started at `start`. -/
def functionType (bound : Nat) (start : Cursor) : m TypeExpr :=
  match bound with
  | 0 => unbounded
  | bound + 1 => enter .functionType do
    skipGroup
    expect .arrow
    discard (returnType bound)
    return .unsupported (← textSince start)

/-- The type of a result. Type predicates (`x is T`) are kept as their text. -/
def returnType : (bound : Nat) → m TypeExpr
  | 0 => unbounded
  | bound + 1 => enter .returnType do
    let start ← cursor
    advanceIf (start.isWord "asserts" && start.hasWord 1)
    let c ← cursor
    if c.hasWord && c.isWord "is" 1 then
      discard advance
      discard advance
      discard (typeExpr bound)
      return .unsupported (← textSince start)
    else
      typeExpr bound

/-- Type parameters in angle brackets, or none. -/
def typeParameters : (bound : Nat) → m (List TypeParameter)
  | 0 => unbounded
  | bound + 1 => enter .typeParameters do
    if ← eat .less then
      let parameters ← commaList .greater (typeParameter bound) bound
      expect .greater
      return parameters
    else
      return []

def typeParameter : (bound : Nat) → m TypeParameter
  | 0 => unbounded
  | bound + 1 => enter .typeParameter do
    modifiers typeParameterModifier? () bound
    let name ← identifier
    let constraint ← afterWord? "extends" (typeExpr bound)
    let default ← afterMark? .assign (typeExpr bound)
    return { name, constraint, default }

/-- Type arguments in angle brackets. -/
def typeArguments : (bound : Nat) → m (List TypeExpr)
  | 0 => unbounded
  | bound + 1 => enter .typeArguments do
    expect .less
    let arguments ← commaList .greater (typeExpr bound) bound
    expect .greater
    return arguments

/-- A union; a bar may stand before the first member. -/
def unionType : (bound : Nat) → m TypeExpr
  | 0 => unbounded
  | bound + 1 => enter .unionType do
    discard (eat .bar)
    let first ← intersectionType bound
    return compound .union (first :: (← afterEach .bar (intersectionType bound) bound))

/-- An intersection; an ampersand may stand before the first member. -/
def intersectionType : (bound : Nat) → m TypeExpr
  | 0 => unbounded
  | bound + 1 => enter .intersectionType do
    discard (eat .ampersand)
    let first ← postfixType bound
    return compound .intersection (first :: (← afterEach .ampersand (postfixType bound) bound))

/-- A type with its suffixes. -/
def postfixType : (bound : Nat) → m TypeExpr
  | 0 => unbounded
  | bound + 1 => enter .postfixType do
    let start ← cursor
    let type ← primaryType bound
    suffixes bound start type

/-- The suffixes of `type`, which started at `start`: `[]` for arrays, and indexed accesses. -/
def suffixes (bound : Nat) (start : Cursor) (type : TypeExpr) : m TypeExpr :=
  match bound with
  | 0 => unbounded
  | bound + 1 => enter .suffixes do
    let c ← cursor
    if c.isMark .leftBracket && !c.head.freshLine then
      discard advance
      if ← eat .rightBracket then
        suffixes bound start (.array type)
      else
        discard (typeExpr bound)
        expect .rightBracket
        suffixes bound start (.unsupported (← textSince start))
    else
      return type

/-- A type without suffixes. -/
def primaryType : (bound : Nat) → m TypeExpr
  | 0 => unbounded
  | bound + 1 => enter .primaryType do
    let start ← cursor
    match start.head.kind with
    | .punct .leftParen =>
      discard advance
      let type ← typeExpr bound
      expect .rightParen
      return type
    | .punct .leftBrace =>
      match ← typeMembers bound with
      | some members => return .object members
      | none => return .unsupported (← textSince start)
    | .punct .leftBracket =>
      discard advance
      let elements ← commaList .rightBracket (tupleElement bound) bound
      expect .rightBracket
      return .tuple elements
    | .punct .minus =>
      discard advance
      match (← advance).kind with
      | .number text => return .literal (.number ("-" ++ text))
      | _ => fail .number
    | .string value =>
      discard advance
      return .literal (.string value)
    | .number text =>
      discard advance
      return .literal (.number text)
    | .template _ =>
      discard advance
      return .unsupported (← textSince start)
    | .word word => wordType bound start word
    | _ => fail .type

/-- A type that starts with a word. -/
def wordType (bound : Nat) (start : Cursor) (word : String) : m TypeExpr :=
  match bound with
  | 0 => unbounded
  | bound + 1 => enter .wordType do
    if word == "true" || word == "false" then
      discard advance
      return .literal (.boolean (word == "true"))
    else if word == "keyof" || word == "unique" || word == "infer" then
      discard advance
      discard (postfixType bound)
      return .unsupported (← textSince start)
    else if word == "typeof" then
      discard advance
      discard (dottedName bound)
      return .unsupported (← textSince start)
    else if word == "readonly" && !(start.ahead 1).freshLine &&
        (start.hasWord 1 || start.isMark .leftParen 1 || start.isMark .leftBracket 1) then
      discard advance
      postfixType bound
    else if word == "this" then
      discard advance
      return .unsupported "this"
    else
      match Keyword.ofWord? word, start.isMark .dot 1 with
      | some keyword, false =>
        discard advance
        return .keyword keyword
      | _, _ =>
        discard advance
        let name := ".".intercalate (word :: (← pathRest bound))
        let c ← cursor
        if c.isMark .less && !c.head.freshLine then
          return .reference name (← typeArguments bound)
        else
          return .reference name []

/-- An element of a tuple type, which may have a name. -/
def tupleElement : (bound : Nat) → m TypeExpr
  | 0 => unbounded
  | bound + 1 => enter .tupleElement do
    discard (eat .ellipsis)
    tupleLabel
    let type ← typeExpr bound
    discard (eat .question)
    return type

/-- An index signature at the current bracket; `none` where the bracket holds a computed name. -/
def indexSignature : (bound : Nat) → m (Option IndexSignature)
  | 0 => unbounded
  | bound + 1 => enter .indexSignature do
    let c ← cursor
    if c.hasWord 1 && c.isMark .colon 2 then
      expect .leftBracket
      let keyName ← identifier
      expect .colon
      let keyType ← typeExpr bound
      expect .rightBracket
      discard (eat .question)
      expect .colon
      let valueType ← typeExpr bound
      return some { keyName, keyType, valueType }
    else
      return none

/-- The members between braces; `none` for a mapped type, which is passed as a whole. -/
def typeMembers : (bound : Nat) → m (Option (List TypeMember))
  | 0 => unbounded
  | bound + 1 => enter .typeMembers do
    expect .leftBrace
    match ← typeMembersRest bound with
    | some members =>
      expect .rightBrace
      return some members
    | none => return none

/-- The members up to the closing brace. -/
def typeMembersRest : (bound : Nat) → m (Option (List TypeMember))
  | 0 => unbounded
  | bound + 1 => enter .typeMembersRest do
    let c ← cursor
    if c.isMark .rightBrace then
      return some []
    else if c.atEnd then
      fail (.mark .rightBrace)
    else if c.isMark .semicolon || c.isMark .comma then
      discard advance
      typeMembersRest bound
    else
      let doc ← doc
      let readonly := readonlyIsModifier c
      advanceIf readonly
      signedReadonly
      let c ← cursor
      if c.isMark .leftBracket && c.hasWord 1 && c.isWord "in" 2 then
        skipTypeLiteral
        return none
      else
        let member ← typeMember bound readonly doc
        let members ← typeMembersRest bound
        return members.map (member.toList ++ ·)

/-- One member after its `readonly`; nothing for call signatures and computed names. -/
def typeMember (bound : Nat) (readonly : Bool) (doc : Option DocComment) :
    m (Option TypeMember) :=
  match bound with
  | 0 => unbounded
  | bound + 1 => enter .typeMember do
    let c ← cursor
    if c.isMark .leftBracket then
      match ← indexSignature bound with
      | some index => return some (.index index.keyName index.keyType index.valueType)
      | none =>
        skipGroup
        signatureRest bound
        return none
    else
      advanceIf (c.isWord "new" && (c.isMark .leftParen 1 || c.isMark .less 1))
      let c ← cursor
      if c.isMark .leftParen || c.isMark .less then
        signatureRest bound
        return none
      else
        let name ← memberName
        let optional ← eat .question
        let c ← cursor
        if c.isMark .leftParen || c.isMark .less then
          signatureRest bound
          return some (.method name)
        else
          let type ← afterMark? .colon (typeExpr bound)
          return some (.property name type optional readonly doc)

/-- The type parameters, parameters and result of a call signature. -/
def signatureRest : (bound : Nat) → m Unit
  | 0 => unbounded
  | bound + 1 => enter .signatureRest do
    discard (typeParameters bound)
    skipParens
    discard (afterMark? .colon (returnType bound))

end

end Endpoints.Parser
