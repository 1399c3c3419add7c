import Endpoints.Endpoint.Annotation
import Endpoints.Endpoint.Path

/-! # Parameters of endpoints

The role of a parameter's decorators decides where it stands in a request; without any it is the
body. Some places restrict the verb of the endpoint or the type of the parameter.
-/

namespace Endpoints

/-- The roles of parameters, in the order in which they are looked for. -/
def Role.parameterRoles : List Role :=
  [.context, .genericParam, .query, .formField, .body, .header, .cookie, .path, .uploadedFile,
   .uploadedFiles]

/-- Whether a schema is simple by itself, or by its alias if that is. -/
def Schema.isSimpleBy (aliased : String → Bool) (schema : Schema) : Bool :=
  match schema.kind with
  | .scalar s => match s with
    | .string | .boolean | .integer | .long | .float | .double | .date | .datetime | .byte => true
    | _ => false
  | .enum _ => true
  | .reference .enum _ => true
  | .reference .typeAlias name => aliased name
  | _ => false

namespace Context

/-- Whether an alias stands for a simple type. Aliases are followed at most `hops` times; more are
only needed where an alias stands for itself. -/
def isSimpleAlias (c : Context) : (hops : Nat) → String → Bool
  | 0, _ => false
  | hops + 1, name =>
    match c.reference? name with
    | some { shape := .typeAlias target _ _ _, .. } => target.isSimpleBy (c.isSimpleAlias hops)
    | _ => false

/-- Whether a header or a cookie can carry a value of the type. -/
def isSimple (c : Context) (schema : Schema) : Bool :=
  schema.isSimpleBy (c.isSimpleAlias (c.table.entries.length + 1))

end Context

mutual

/-- The part of a type that a query can not carry. -/
def Schema.queryFault? : Schema → Option Schema
  | ⟨kind, nullable⟩ => kind.queryFault? nullable

/-- The part of a kind that a query can not carry. -/
def Kind.queryFault? (nullable : Bool) : Kind → Option Schema
  | .scalar .void => some ⟨.scalar .void, nullable⟩
  | .scalar .file => some ⟨.scalar .file, nullable⟩
  | .scalar .binary => some ⟨.scalar .binary, nullable⟩
  | .scalar .buffer => some ⟨.scalar .buffer, nullable⟩
  | .union types => some ⟨.union types, nullable⟩
  | .intersection types => some ⟨.intersection types, nullable⟩
  | .array element => element.queryFault?
  | _ => none

end

/-- An endpoint as its parameters see it. -/
structure EndpointHead where
  declaration : MethodDecl
  verb : Verb
  /-- The path with that of the controller. -/
  path : String
  /-- What the type parameters of the method stand for. -/
  scope : Scope

namespace Resolver

def parameterType (r : Resolver) (head : EndpointHead) (p : ParameterDecl) : Resolve Schema :=
  match p.type with
  | some type => r.resolve (type.substitute head.scope) (r.decoratorHints p.decorators)
  | none => do
    Resolve.warn (.untypedParameter p.name head.declaration.name)
    return .object

/-- A parameter at a place. It is required unless it is optional, has a default or may be null. -/
def plainParameter (head : EndpointHead) (p : ParameterDecl) (name : String) (location : Location)
    (type : Schema) : Parameter :=
  let default := p.initializer.map (·.toJson)
  { sourceName := p.name, name, location
    required := !p.optional && default.isNone && !type.nullable
    type
    description := head.declaration.doc.bind (·.param? p.name)
    default
    collectionFormat := none, allowEmptyValue := none, minItems := none, maxItems := none }

/-- Requires a verb whose requests may have a body. -/
def requireBodyVerb (head : EndpointHead) (p : ParameterDecl) (kind : String) : Resolve Unit :=
  if head.verb.allowsBody then return
  else .fail (.unsupportedVerb p.name kind head.verb.text)

/-- The option `allowEmptyValue` of a query parameter. -/
def allowEmptyValue? (found : Option RoleMatch) : Option Bool :=
  match found.bind (·.first? .options) with
  | some (.expr options) =>
    match options.field? "allowEmptyValue" with
    | some (.bool value) => some value
    | _ => none
  | _ => none

def queryParameter (r : Resolver) (head : EndpointHead) (p : ParameterDecl) (name : String)
    (found : Option RoleMatch) : Resolve Parameter := do
  let type ← r.parameterType head p
  match type.queryFault? with
  | some part => .fail (.invalidQueryType name part.display)
  | none =>
    let isArray := match type.kind with
      | .array _ => true
      | _ => false
    let validators := (p.type.map r.aliasValidators).getD .empty
    return { plainParameter head p name .query type with
      collectionFormat := if isArray then some "multi" else none
      allowEmptyValue := allowEmptyValue? found
      minItems := (validators.get? "minItems").map (·.value)
      maxItems := (validators.get? "maxItems").map (·.value) }

/-- A parameter that a header or a cookie carries. -/
def simpleParameter (r : Resolver) (head : EndpointHead) (p : ParameterDecl) (name : String)
    (location : Location) : Resolve Parameter := do
  let type ← r.parameterType head p
  if (← Resolve.context).isSimple type then
    return plainParameter head p name location type
  else
    .fail (.invalidSimpleType name location.text type.display)

/-- A parameter of the path, which must mention it. -/
def pathParameter (r : Resolver) (head : EndpointHead) (p : ParameterDecl) (name : String) :
    Resolve Parameter := do
  if !Route.hasParameter head.path name then
    Resolve.fail (.pathParameterMismatch name head.path)
  return plainParameter head p name .path (← r.parameterType head p)

/-- The role of a parameter, with its decorators if there are any. -/
def parameterRole (r : Resolver) (p : ParameterDecl) : Role × Option RoleMatch :=
  let found :=
    Role.parameterRoles.findSome? fun role => (r.mapping.find? p.decorators role).map (role, ·)
  match found with
  | some (role, found) => (role, some found)
  | none => (.body, none)

def parameter (r : Resolver) (head : EndpointHead) (p : ParameterDecl) : Resolve Parameter := do
  let (role, found) := r.parameterRole p
  let name := (found.bind (·.text? .name)).getD p.name
  let file := Schema.ofScalar .file
  match role with
  | .context =>
    return { plainParameter head p name .context (.ofScalar .any) with required := !p.optional }
  | .genericParam => return plainParameter head p name .param (← r.parameterType head p)
  | .query => r.queryParameter head p name found
  | .formField =>
    requireBodyVerb head p "form"
    return plainParameter head p name .formData (← r.parameterType head p)
  | .header => r.simpleParameter head p name .header
  | .cookie => r.simpleParameter head p name .cookie
  | .path => r.pathParameter head p name
  | .uploadedFile =>
    requireBodyVerb head p "file"
    return plainParameter head p name .formData file
  | .uploadedFiles =>
    requireBodyVerb head p "file"
    return plainParameter head p name .formData (.array file)
  | _ =>
    requireBodyVerb head p "body"
    return plainParameter head p name .body (← r.parameterType head p)

end Resolver

end Endpoints
