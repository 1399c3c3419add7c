import Endpoints.Syntax.Declaration
import Endpoints.Syntax.Expr.Parser

/-! # Parsing declarations

Parsers for decorators, class members and whole declarations. Bodies of functions are skipped; of a
method body it is only noted whether it returns a value.
-/

namespace Endpoints.Parser

open MonadParser

variable {m : Type → Type} [MonadParser m]

/-! ## Decorators and parameters -/

def decoratorArgument (bound : Nat) : m Expr := do
  expectMore (.mark .rightParen)
  expression bound false

/-- The arguments of a decorator in parentheses, or none. -/
def decoratorArguments (bound : Nat) : m (List Expr) := do
  if ← eat .leftParen then
    let arguments ← commaList .rightParen (decoratorArgument bound) bound
    expect .rightParen
    return arguments
  else
    return []

/-- The type arguments of a decorator, or none. -/
def decoratorTypeArguments (bound : Nat) : m (List TypeExpr) := do
  if (← cursor).isMark .less then typeArguments bound else return []

def decorator (bound : Nat) : m Decorator := do
  let line := (← advance).line
  let name ← dottedName bound
  let typeArguments ← decoratorTypeArguments bound
  let arguments ← decoratorArguments bound
  return { name, arguments, typeArguments, line }

/-- All decorators that stand here. -/
def decorators (bound : Nat) : m (List Decorator) :=
  go bound
where
  go : (steps : Nat) → m (List Decorator)
    | 0 => unbounded
    | steps + 1 => enter .decorators do
      if (← cursor).isMark .atSign then
        let first ← decorator bound
        return first :: (← go steps)
      else
        return []

/-- The modifiers of a parameter: the visibility of the property it declares, if it does, and
`readonly`. -/
structure ParameterModifiers where
  visibility : Option Visibility
  readonly : Bool

/-- The effect of a modifier, if the word is one and something that can be a parameter follows. -/
def ParameterModifiers.add? (m : ParameterModifiers) (word : String) (c : Cursor) :
    Option ParameterModifiers :=
  if !(c.hasWord 1 || c.isMark .leftBrace 1 || c.isMark .leftBracket 1) then none
  else if word == "public" then some { m with visibility := some .publicMember }
  else if word == "private" then some { m with visibility := some .privateMember }
  else if word == "protected" then some { m with visibility := some .protectedMember }
  else if word == "readonly" then
    some { visibility := some (m.visibility.getD .publicMember), readonly := true }
  else if word == "override" then some m
  else none

/-- The name of a parameter. A pattern in place of it is passed. -/
def parameterName : m String := do
  let c ← cursor
  if c.isMark .leftBrace || c.isMark .leftBracket then
    skipGroup
    return "__destructured"
  else
    identifier

/-- One parameter; nothing for `this`. -/
def parameter (bound : Nat) : m (Option ParameterDecl) := do
  expectMore (.mark .rightParen)
  let decorators ← decorators bound
  let modifiers ← modifiers ParameterModifiers.add? ⟨none, false⟩ bound
  let rest ← eat .ellipsis
  let name ← parameterName
  let optional ← eat .question
  let type ← afterMark? .colon (typeExpr bound)
  let initializer ← afterMark? .assign (expression bound false)
  if name == "this" then
    return none
  else
    return some {
      name, decorators, type, optional, rest, initializer
      propertyVisibility := modifiers.visibility
      readonly := modifiers.readonly }

/-- The parameters of a function in parentheses. -/
def parameters (bound : Nat) : m (List ParameterDecl) := do
  expect .leftParen
  let parameters ← commaList .rightParen (parameter bound) bound
  expect .rightParen
  return parameters.filterMap id

/-! ## Classes -/

/-- A type that a declaration inherits from. A call after it (`Mixin(Base)`) makes it opaque. -/
def heritageType (bound : Nat) : m TypeExpr := do
  let start ← cursor
  let type ← primaryType bound
  if (← cursor).isMark .leftParen then
    skipGroup
    return .unsupported (← textSince start)
  else
    return type

/-- The `extends` and `implements` clauses of a class. -/
def heritage (bound : Nat) : m (Option TypeExpr × List TypeExpr) :=
  go none [] bound
where
  go (superclass : Option TypeExpr) (interfaces : List TypeExpr) :
      (steps : Nat) → m (Option TypeExpr × List TypeExpr)
    | 0 => unbounded
    | steps + 1 => enter .heritage do
      if ← eatWord "extends" then
        go (some (← heritageType bound)) interfaces steps
      else if ← eatWord "implements" then
        go superclass (interfaces ++ (← commaSeparated (heritageType bound) bound)) steps
      else
        return (superclass, interfaces)

/-- The modifiers of a class member. -/
structure MemberModifiers where
  visibility : Visibility
  isStatic : Bool
  readonly : Bool
  isAsync : Bool

/-- Whether the current word is a modifier of what follows and not a member name itself. -/
def startsMember (c : Cursor) : Bool :=
  match (c.ahead 1).kind with
  | .word _ | .string _ | .number _ => !(c.ahead 1).freshLine
  | .punct mark => mark = .leftBracket || mark = .hash || mark = .star
  | _ => false

/-- The effect of a modifier, if the word is one and a member follows. -/
def MemberModifiers.add? (m : MemberModifiers) (word : String) (c : Cursor) :
    Option MemberModifiers :=
  if !startsMember c then none
  else if word == "private" then some { m with visibility := .privateMember }
  else if word == "protected" then some { m with visibility := .protectedMember }
  else if word == "static" then some { m with isStatic := true }
  else if word == "readonly" then some { m with readonly := true }
  else if word == "async" then some { m with isAsync := true }
  else if ["public", "abstract", "declare", "override", "accessor"].contains word then some m
  else none

/-- Whether `get` or `set` here makes the member an accessor. -/
def startsAccessor (c : Cursor) : Bool :=
  (c.isWord "get" || c.isWord "set") &&
    match (c.ahead 1).kind with
    | .punct mark =>
      !(mark = .leftParen || mark = .colon || mark = .question || mark = .assign ||
        mark = .semicolon || mark = .less || mark = .bang || mark = .rightBrace)
    | _ => true

/-- Passes the rest of a member with a computed name. -/
def skipMemberRest : (bound : Nat) → m Unit
  | 0 => unbounded
  | bound + 1 => enter .skipMemberRest do
    let c ← cursor
    if c.atEnd || c.isMark .semicolon || c.isMark .rightBrace then
      discard (eat .semicolon)
    else if c.isMark .leftBrace then
      skipGroup
    else if c.isMark .leftParen || c.isMark .leftBracket then
      skipGroup
      skipMemberRest bound
    else
      discard advance
      skipMemberRest bound

/-- A body in braces, or a semicolon in its place; says whether the body returns a value. -/
def body : m Bool := do
  if (← cursor).isMark .leftBrace then
    skipBody
  else
    discard (eat .semicolon)
    return false

/-- What has been read of a class member before its name. -/
structure MemberHead where
  doc : Option DocComment
  line : Nat
  decorators : List Decorator
  modifiers : MemberModifiers
  isAccessor : Bool

/-- A method or property, from its name on. Accessors are passed. -/
def namedMember (bound : Nat) (head : MemberHead) : m (Option ClassMember) := do
  let isPrivateName ← eat .hash
  let name ← memberName
  let visibility := if isPrivateName then .privateMember else head.modifiers.visibility
  let optional ← eat .question
  discard (eat .bang)
  let c ← cursor
  if c.isMark .leftParen || c.isMark .less then
    let typeParameters ← typeParameters bound
    let parameters ← parameters bound
    let returnType ← afterMark? .colon (returnType bound)
    let returnsValue ← body
    if head.isAccessor then
      return none
    else
      return some (.method {
        name, decorators := head.decorators, typeParameters, parameters, returnType
        isStatic := head.modifiers.isStatic, isAsync := head.modifiers.isAsync
        visibility, returnsValue, doc := head.doc, line := head.line })
  else
    let type ← afterMark? .colon (typeExpr bound)
    let initializer ← afterMark? .assign (expression bound true)
    discard (eat .semicolon)
    return some (.property {
      name, decorators := head.decorators, type, optional
      readonly := head.modifiers.readonly, isStatic := head.modifiers.isStatic
      visibility, initializer, doc := head.doc })

/-- One member of a class; nothing for accessors, static blocks and computed names. -/
def classMember (bound : Nat) : m (Option ClassMember) := do
  let doc ← doc
  let line := (← cursor).head.line
  let decorators ← decorators bound
  let modifiers ← modifiers MemberModifiers.add? ⟨.publicMember, false, false, false⟩ bound
  let c ← cursor
  if modifiers.isStatic && c.isMark .leftBrace then
    skipGroup
    return none
  else
    let isAccessor := startsAccessor c
    advanceIf isAccessor
    discard (eat .star)
    let c ← cursor
    if c.isWord "constructor" && c.isMark .leftParen 1 then
      discard advance
      let parameters ← parameters bound
      discard body
      return some (.constructor parameters)
    else if c.isMark .leftBracket then
      match ← indexSignature bound with
      | some index =>
        discard (eat .semicolon)
        return some (.index index)
      | none =>
        skipGroup
        skipMemberRest bound
        return none
    else
      namedMember bound { doc, line, decorators, modifiers, isAccessor }

/-- The members of a class up to the closing brace. -/
def classMembers (bound : Nat) : m (List ClassMember) :=
  go bound
where
  go : (steps : Nat) → m (List ClassMember)
    | 0 => unbounded
    | steps + 1 => enter .classMembers do
      let c ← cursor
      if c.isMark .rightBrace then
        return []
      else if c.atEnd then
        fail (.mark .rightBrace)
      else if c.isMark .semicolon then
        discard advance
        go steps
      else
        let member ← classMember bound
        return member.toList ++ (← go steps)

/-- The name after `class`; a class without one is called `default`. -/
def className : m String := do
  let c ← cursor
  match c.word? with
  | some name =>
    if name == "extends" || name == "implements" then
      return "default"
    else
      moveTo c.next
      return name
  | none => return "default"

/-- What has been read of a declaration before its keyword. -/
structure DeclarationHead where
  doc : Option DocComment
  line : Nat
  decorators : List Decorator
  isAbstract : Bool

/-- A class, from its keyword on. -/
def classDecl (bound : Nat) (head : DeclarationHead) : m ClassDecl := do
  discard advance
  let name ← className
  let typeParameters ← typeParameters bound
  let (superclass, interfaces) ← heritage bound
  expect .leftBrace
  let members ← classMembers bound
  expect .rightBrace
  return {
    name, decorators := head.decorators, typeParameters, superclass, interfaces, members
    doc := head.doc, line := head.line, isAbstract := head.isAbstract }

/-! ## Other declarations -/

/-- An interface, from its keyword on. -/
def interfaceDecl (bound : Nat) (head : DeclarationHead) : m InterfaceDecl := do
  discard advance
  let name ← identifier
  let typeParameters ← typeParameters bound
  let parents ← afterWord? "extends" (commaSeparated (heritageType bound) bound)
  match ← typeMembers bound with
  | some members =>
    return {
      name, typeParameters, parents := parents.getD [], members
      doc := head.doc, line := head.line }
  | none => fail .plainBody

/-- A type alias, from its keyword on. -/
def aliasDecl (bound : Nat) (head : DeclarationHead) : m AliasDecl := do
  discard advance
  let name ← identifier
  let typeParameters ← typeParameters bound
  expect .assign
  let type ← typeExpr bound
  discard (eat .semicolon)
  return { name, typeParameters, type, doc := head.doc, line := head.line }

def enumMember (bound : Nat) : m EnumMember := do
  let doc ← doc
  let name ← memberName
  let initializer ← afterMark? .assign (expression bound false)
  return { name, initializer, doc }

/-- An enum, from its keyword on. -/
def enumDecl (bound : Nat) (head : DeclarationHead) (isConst : Bool) : m EnumDecl := do
  discard advance
  let name ← identifier
  expect .leftBrace
  let members ← commaList .rightBrace (enumMember bound) bound
  expect .rightBrace
  return { name, members, isConst, doc := head.doc, line := head.line }

end Endpoints.Parser
