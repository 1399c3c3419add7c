import Endpoints.Decorator.Match
import Endpoints.Doc.Hints
import Endpoints.Json.Writer
import Endpoints.Resolution.Basic
import Endpoints.Resolution.Bound
import Endpoints.Resolution.Union
import Endpoints.Syntax.Type.Fragment
import Endpoints.Syntax.Type.Scope

/-! # One step of resolution

The schema of a type expression in terms of the schemas of its parts. Every function here takes the
way in which parts are resolved as an argument (`Parts`); `Resolver.resolve` ties the knot.

A named type gets an entry in the table of the context and is referred to by its name. Where it
refers to itself, the name is under construction and is noted for a check at the end of the run.
-/

namespace Endpoints

/-- How the parts of a type are resolved. -/
abbrev Parts (m : Type → Type) := TypeExpr → Hints → m Schema

/-- What types are resolved against. -/
structure Resolver where
  index : Index
  mapping : Mapping

/-! ## Types without names -/

def NumberFormat.schema : NumberFormat → Schema
  | integer => .ofScalar .integer
  | long => .ofScalar .long
  | float => .ofScalar .float
  | double => .ofScalar .double

def Keyword.schema (hints : Hints) : Keyword → Except Fault Schema
  | string => .ok .string
  | number => .ok (hints.number.getD .double).schema
  | boolean => .ok (.ofScalar .boolean)
  | bigint => .ok (.ofScalar .long)
  | void => .ok .void
  | null | undefined => .ok .null
  | any | unknown | object => .ok .object
  | never => .error (.unsupportedType (.type "never"))
  | symbol => .error (.unsupportedType (.type "symbol"))

def LiteralType.value : LiteralType → Json
  | string text => .string text
  | number text => Numeral.toJson text
  | boolean value => .bool value

/-- Whether a type is a literal or a union of literals, possibly with `null` and `undefined`. -/
def TypeExpr.isLiteralUnion : TypeExpr → Bool
  | .literal _ => true
  | .union members =>
    members.any (fun m => match m with | .literal _ => true | _ => false) &&
    members.all (fun m => match m with
      | .literal _ | .keyword .null | .keyword .undefined => true
      | _ => false)
  | _ => false

/-- The schema of a property without type, by its initializer. -/
def Expr.schema (hints : Hints) : Expr → Schema
  | .string _ => .string
  | .number _ => (hints.number.getD .double).schema
  | .bool _ => .ofScalar .boolean
  | .array _ => .array .object
  | _ => .object

/-- The text of the key that an enum member stands for in a record. -/
def Json.keyText : Json → String
  | .string text => text
  | other => other.compact

/-- The elements of a tuple are the branches of the items of an array. -/
def tupleSchema : List Schema → Schema
  | [] => .array .object
  | [schema] => .array schema
  | schemas => .array (.ofKind (.union schemas))

/-- The members of an intersection; those of an intersection inside it take its place, unless it is
nullable. -/
def intersectionMembers (schema : Schema) : List Schema :=
  match schema.kind, schema.nullable with
  | .intersection types, false => types
  | _, _ => [schema]

/-- The intersection of some schemas. -/
def intersectionSchema : List Schema → Schema
  | [schema] => schema
  | schemas => .ofKind (.intersection schemas)

/-- The record with given keys and values. A key type that lists its values gives one property for
each of them. -/
def recordSchema (key value : Schema) : Schema :=
  match key.kind with
  | .enum members =>
    .ofKind (.object (members.map fun member => .plain member.keyText value true) none)
  | _ => .ofKind (.object [] (some value))

namespace Resolver

variable {m : Type → Type} [Monad m]

/-- The schemas of types, one after the other. -/
def resolveAll (parts : Parts m) (types : List TypeExpr) (hints : Hints) : m (List Schema) :=
  types.mapM (parts · hints)

def tuple (parts : Parts m) (elements : List TypeExpr) (hints : Hints) : m Schema := do
  return tupleSchema ((← resolveAll parts elements hints).foldl addNew [])

def intersection (parts : Parts m) (members : List TypeExpr) : m Schema := do
  return intersectionSchema ((← resolveAll parts members .none).flatMap intersectionMembers)

variable [MonadSession m]

def union (parts : Parts m) (members : List TypeExpr) (hints : Hints) : m Schema := do
  let gathered := (← resolveAll parts members hints).foldl UnionParts.add ⟨[], false⟩
  return gathered.toSchema (← Resolve.context)

/-! ## Members -/

variable [MonadExceptOf Error m]

/-- The number format that decorators ask for. -/
def decoratorHints (r : Resolver) (decorators : List Decorator) : Hints :=
  let formats : List (Role × NumberFormat) :=
    [(.isInt, .integer), (.isLong, .long), (.isFloat, .float), (.isDouble, .double)]
  { number := (formats.find? fun (role, _) => r.mapping.has decorators role).map (·.2)
    date := none }

/-- The schema of a member. -/
def memberSchema (parts : Parts m) (member : Member) (scope : Scope) (hints : Hints) : m Schema :=
  match member.type, member.initializer with
  | some type, _ => Resolve.inside (.property member.name) (parts (type.substitute scope) hints)
  | none, some initializer => return initializer.schema hints
  | none, none => do
    Resolve.warn (.untypedProperty member.name)
    return .object

/-- The default of a member: its initializer, if that is a literal, or else the tag. -/
def memberDefault? (member : Member) : Option Json :=
  match member.initializer with
  | some (.raw _) | some (.path _) | none => DocComment.tagValue? member.doc "default"
  | some initializer => some initializer.toJson

/-- The property of a member; none if its documentation says to ignore it. -/
def property (r : Resolver) (parts : Parts m) (scope : Scope) (member : Member) :
    m (Option Property) := do
  if DocComment.anyTag member.doc "ignore" then
    return none
  let hints := (Hints.ofDoc member.doc).or (r.decoratorHints member.decorators)
  let type ← memberSchema parts member scope hints
  let format := (member.doc.bind (·.tag? "format")).filter (!·.isEmpty)
  return some {
    name := member.name, type
    required := !member.optional && member.initializer.isNone
    description := DocComment.descriptionOf member.doc
    default := memberDefault? member
    format
    sample := DocComment.tagValue? member.doc "example"
    validators := Validator.ofDoc member.doc
    deprecated :=
      DocComment.anyTag member.doc "deprecated" || r.mapping.has member.decorators .deprecated }

def properties (r : Resolver) (parts : Parts m) (scope : Scope) (members : List Member) :
    m (List Property) := do
  return (← members.mapM (r.property parts scope)).filterMap id

/-- The schema of the values of an index signature; its keys must be strings. -/
def indexValue (parts : Parts m) (scope : Scope) (index : IndexSignature) : m Schema :=
  match index.keyType with
  | .keyword .string => parts (index.valueType.substitute scope) .none
  | other => Resolve.fail (.unsupportedIndexSignature (index.keyName ++ ": " ++ other.display))

/-- The schema of the values of the last index signature; all of them are resolved. -/
def additional (parts : Parts m) (scope : Scope) (indexes : List IndexSignature) :
    m (Option Schema) := do
  return (← indexes.mapM (indexValue parts scope)).getLast?

def objectType (r : Resolver) (parts : Parts m) (members : List TypeMember) : m Schema := do
  let properties ← r.properties parts .empty (members.filterMap (·.member?))
  let additional ← additional parts .empty (members.filterMap (·.indexSignature?))
  return .ofKind (.object properties additional)

/-! ## Declarations -/

/-- The name of a declaration used in a scope. -/
def referenceName (d : Located) (scope : Scope) : String :=
  d.qualifiedName ++ String.join (d.declaration.typeParameters.map fun parameter =>
    ((scope.get? parameter.name).map (·.fragment)).getD "")

/-- Uses a named type. If it is neither finished nor under construction, `construct` gives its entry
of the table. -/
def useName (name origin : String) (referent : Referent) (construct : m ReferenceType) :
    m Schema := do
  Resolve.claim name origin
  let c ← Resolve.context
  if (c.reference? name).isSome then
    return .ofKind (.reference referent name)
  else if c.isInProgress name then
    Resolve.modifyContext (·.defer name)
    return .ofKind (.reference referent name)
  else
    Resolve.constructing name do
      let type ← construct
      Resolve.modifyContext (·.complete type)
    return .ofKind (.reference referent name)

/-- The names of enum members, if no two of their values are the same. -/
def memberNames? (values : List (String × Json)) : Option (List String) :=
  let members := values.map (·.2)
  if (members.foldl addNew []).length = members.length then some (values.map (·.1)) else none

def enumEntry (d : EnumDecl) (name : String) : ReferenceType where
  name
  description := DocComment.descriptionOf d.doc
  deprecated := DocComment.anyTag d.doc "deprecated"
  sample := DocComment.tagValue? d.doc "example"
  shape := .enum (d.values.map (·.2)) (memberNames? d.values)

/-- An enum. It is finished at once. -/
def enumReference (located : Located) (d : EnumDecl) : m Schema := do
  let name := located.qualifiedName
  Resolve.claim name located.location
  match (← Resolve.context).reference? name with
  | some type => return type.handle
  | none =>
    let type := enumEntry d name
    Resolve.modifyContext (·.complete type)
    return type.handle

def aliasEntry (d : AliasDecl) (name : String) (target : Schema) : ReferenceType where
  name
  description := DocComment.descriptionOf d.doc
  deprecated := DocComment.anyTag d.doc "deprecated"
  sample := DocComment.tagValue? d.doc "example"
  shape := .typeAlias target (d.doc.bind (·.tag? "format")) (Validator.ofDoc d.doc)
    (DocComment.tagValue? d.doc "default")

/-- An alias. A union of literals has no name of its own. -/
def aliasReference (parts : Parts m) (located : Located) (d : AliasDecl)
    (arguments : List TypeExpr) : m Schema :=
  let scope := Scope.bind d.typeParameters arguments
  let body := d.type.substitute scope
  let hints := Hints.ofDoc d.doc
  if body.isLiteralUnion then
    parts body hints
  else
    let name := referenceName located scope
    useName name located.location .typeAlias do
      return aliasEntry d name (← parts body hints)

def shapeOfType (parts : Parts m) (type : TypeExpr) : m ObjectShape := do
  Resolve.shapeOf (← parts type .none)

/-- The shape that a type contributes to a declaration that inherits from it. `structural` gives the
shape of a declaration with members; `chain` holds the declarations that lead here, which may not
occur again. -/
def inheritedShape (r : Resolver) (parts : Parts m)
    (structural : Located → Scope → m ObjectShape) (chain : List String) (parent : TypeExpr) :
    m ObjectShape :=
  match parent with
  | .reference name arguments =>
    match r.index.find name with
    | [located] =>
      if located.declaration.isStructural then
        if chain.contains located.qualifiedName then
          Resolve.fail (.unsupportedType (.circularInheritance (chain ++ [located.qualifiedName])))
        else
          structural located (Scope.bind located.declaration.typeParameters arguments)
      else
        shapeOfType parts parent
    | [] => shapeOfType parts parent
    | many => Resolve.fail (.ambiguousDeclaration name (many.map (·.location)))
  | other => Resolve.fail (.unsupportedType (.type other.display))

/-- The shape of a declaration with members: what it inherits, then its own members. -/
def structuralShape (r : Resolver) (parts : Parts m) :
    (links : Nat) → (chain : List String) → Located → Scope → m ObjectShape
  | 0, _, _, _ => Resolve.fail (.unsupportedType .unbounded)
  | links + 1, chain, located, scope => do
    let chain := chain ++ [located.qualifiedName]
    let d := located.declaration
    let inherited ← d.heritage.foldlM (fun (shape : ObjectShape) parent => do
      let other ←
        r.inheritedShape parts (r.structuralShape parts links chain) chain (parent.substitute scope)
      return shape.inherit other) .empty
    let own ← r.properties parts scope d.members
    let additional ← additional parts scope d.indexSignatures
    return ⟨own.foldl ObjectShape.addOwn inherited.properties, additional.or inherited.additional⟩

def objectEntry (r : Resolver) (d : Declaration) (name : String) (shape : ObjectShape) :
    ReferenceType where
  name
  description := DocComment.descriptionOf d.doc
  deprecated := DocComment.anyTag d.doc "deprecated" || r.mapping.has d.decorators .deprecated
  sample := DocComment.tagValue? d.doc "example"
  shape := .object shape.properties shape.additional

def objectReference (r : Resolver) (parts : Parts m) (located : Located)
    (arguments : List TypeExpr) : m Schema :=
  let d := located.declaration
  let scope := Scope.bind d.typeParameters arguments
  let name := referenceName located scope
  useName name located.location .object do
    return r.objectEntry d name (← r.structuralShape parts r.index.maxChain [] located scope)

def declared (r : Resolver) (parts : Parts m) (located : Located) (arguments : List TypeExpr) :
    m Schema :=
  match located.declaration with
  | .ofEnum d => enumReference located d
  | .ofAlias d => aliasReference parts located d arguments
  | .ofClass _ | .ofInterface _ => r.objectReference parts located arguments

/-! ## References -/

/-- Cuts a name at its last point. -/
def splitLast? (name : String) : Option (String × String) :=
  match (Text.splitOn '.' name.toList).reverse with
  | last :: first :: rest =>
    some (String.ofList (['.'].intercalate (first :: rest).reverse), String.ofList last)
  | _ => none

/-- A member of an enum as a type of its own. -/
def enumMember? (r : Resolver) (name : String) : Option Schema := do
  let (owner, member) ← splitLast? name
  match r.index.find owner with
  | [located] =>
    match located.declaration with
    | .ofEnum d => (d.values.find? (·.1 == member)).map fun (_, value) => .enum [value]
    | _ => none
  | _ => none

/-- The type with the properties that some keys name (`keep`), or with the others. -/
def selectProperties (parts : Parts m) (name : String) (target keys : TypeExpr) (keep : Bool) :
    m Schema := do
  let shape ← shapeOfType parts target
  match (← parts keys .none).kind with
  | .enum members =>
    let names := members.filterMap (·.asString?)
    return ObjectShape.toSchema {
      properties := shape.properties.filter fun property => names.contains property.name == keep
      additional := if keep then none else shape.additional }
  | _ =>
    Resolve.fail
      (.unsupportedType (.type (name ++ "<" ++ target.display ++ ", " ++ keys.display ++ ">")))

/-- A type of the language's own library. -/
def library (parts : Parts m) (name : String) (arguments : List TypeExpr) (hints : Hints) :
    m Schema :=
  match name, arguments with
  | "Promise", [inner] | "PromiseLike", [inner] => parts inner hints
  | "Array", [element] | "ReadonlyArray", [element] | "Set", [element] => do
    return .array (← parts element hints)
  | "Date", [] => return .ofScalar (if hints.date = some .date then .date else .datetime)
  | "Buffer", _ | "ArrayBuffer", _ | "Uint8Array", _ => return .ofScalar .buffer
  | "Readable", _ | "ReadableStream", _ | "Blob", _ => return .ofScalar .binary
  | "File", [] | "Express.Multer.File", [] => return .ofScalar .file
  | "Object", [] => return .object
  | "Record", [key, value] => do
    let value ← parts value .none
    let key ← parts key .none
    return recordSchema key value
  | "Partial", [target] => return ((← shapeOfType parts target).require false).toSchema
  | "Required", [target] => return ((← shapeOfType parts target).require true).toSchema
  | "Readonly", [target] => return (← shapeOfType parts target).toSchema
  | "Pick", [target, keys] => selectProperties parts name target keys true
  | "Omit", [target, keys] => selectProperties parts name target keys false
  | _, _ => Resolve.fail (.unresolvableType name)

/-- A reference: to a declaration of the program, to a member of an enum, or to a library type. -/
def reference (r : Resolver) (parts : Parts m) (name : String) (arguments : List TypeExpr)
    (hints : Hints) : m Schema :=
  match r.index.find name with
  | [located] => r.declared parts located arguments
  | [] =>
    match r.enumMember? name with
    | some schema => return schema
    | none => library parts name arguments hints
  | many => Resolve.fail (.ambiguousDeclaration name (many.map (·.location)))

/-- The schema of a type by the schemas of its parts. -/
def step (r : Resolver) (parts : Parts m) (type : TypeExpr) (hints : Hints) : m Schema :=
  match type with
  | .keyword word => Resolve.ofExcept (word.schema hints)
  | .literal value => return .enum [value.value]
  | .array element => return .array (← parts element hints)
  | .tuple elements => tuple parts elements hints
  | .intersection members => intersection parts members
  | .object members => r.objectType parts members
  | .union members => union parts members hints
  | .reference name arguments => r.reference parts name arguments hints
  | .unsupported text => Resolve.fail (.unsupportedType (.type text))

end Resolver

end Endpoints
