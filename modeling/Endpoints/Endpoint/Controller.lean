import Endpoints.Endpoint.Parameter

/-! # Endpoints and controllers

A method with the decorator of a verb is an endpoint, and a class with a path is a controller.
`Metadata.ofProgram` gives the controllers of a program and the reference types that they need.
-/

namespace Endpoints

namespace Resolver

/-! ## Endpoints -/

/-- The verb of a method with its decorators; none if the method is no endpoint. It may have one
verb only. -/
def verb? (r : Resolver) (m : MethodDecl) : Except Fault (Option (Verb × RoleMatch)) :=
  let found :=
    Role.verbs.filterMap fun (role, verb) => (r.mapping.find? m.decorators role).map (verb, ·)
  match found with
  | [] => .ok none
  | [one] => .ok (some one)
  | many => .error (.ambiguousVerb m.name (many.map fun (_, found) => found.representation.name))

/-- What an endpoint returns. Without a type it is nothing, unless the body returns a value. -/
def returnSchema (r : Resolver) (controller : String) (m : MethodDecl) (scope : Scope) :
    Resolve Schema :=
  match m.returnType with
  | some type => r.resolve (type.substitute scope) .none
  | none =>
    if m.returnsValue then do
      Resolve.warn (.untypedMethod controller m.name)
      return .object
    else
      return .void

/-- Parameters may not hold two bodies, nor a body and form fields. -/
def bodyFault? (parameters : List Parameter) : Option Fault :=
  let bodies := parameters.countP (·.location = .body)
  if bodies > 1 then some .multipleBodyParameters
  else if bodies > 0 && parameters.any (·.location = .formData) then some .bodyAndFormParameters
  else none

def parameters (r : Resolver) (head : EndpointHead) : Resolve (List Parameter) := do
  let parameters ← head.declaration.parameters.mapM fun p =>
    Resolve.inside (.parameter p.name) (r.parameter head p)
  match bodyFault? parameters with
  | some fault => .fail fault
  | none => return parameters

/-- Examples of a successful response. -/
def samples? (r : Resolver) (m : MethodDecl) : Option (List Json) :=
  match r.mapping.find? m.decorators .sample with
  | some found => nonEmpty? (found.instances.filterMap (found.jsonOf? · .sample))
  | none => none

/-- Adds the successful response to those that are declared. If one is declared for its status, that
one stays and only takes the examples if it has none. -/
def addSuccess (success : Response) : List Response → List Response
  | [] => [success]
  | response :: responses =>
    if response.status = success.status then
      { response with samples := response.samples.or success.samples } :: responses
    else
      response :: addSuccess success responses

/-- The successful response of an endpoint that returns `type`. -/
def successResponse (r : Resolver) (m : MethodDecl) (type : Schema) : Response :=
  let (status, description) := if type.isVoid then ("204", "No content") else ("200", "Ok")
  { status := (r.roleText? m.decorators .successResponse .status).getD status
    description := (r.roleText? m.decorators .successResponse .description).getD description
    schema := if type.isVoid then none else some type
    samples := r.samples? m
    headers := none }

def endpointOf (r : Resolver) (controller controllerPath : String) (m : MethodDecl) (verb : Verb)
    (found : RoleMatch) : Resolve Endpoint := do
  let path := ((found.text? .path).map Route.trim).getD ""
  let scope := Scope.ofConstraints m.typeParameters
  let type ← r.returnSchema controller m scope
  let parameters ←
    r.parameters { declaration := m, verb, path := Route.join controllerPath path, scope }
  let declared ← r.responses m.decorators
  return {
    name := m.name, verb, path
    description :=
      (r.roleText? m.decorators .description .description).or (DocComment.descriptionOf m.doc)
    summary := (r.roleText? m.decorators .summary .summary).or (m.doc.bind (·.tag? "summary"))
    parameters
    responses := addSuccess (r.successResponse m type) declared
    tags := r.roleTexts m.decorators .tags
    consumes := r.roleTexts m.decorators .consumes
    produces := r.roleTexts m.decorators .produces
    security := r.security? m.decorators
    deprecated := r.mapping.has m.decorators .deprecated || DocComment.anyTag m.doc "deprecated"
    hidden := r.mapping.has m.decorators .hidden
    operationId := r.roleText? m.decorators .operationId .operationId
    type }

/-- The endpoint of a method, if it is one. -/
def endpoint? (r : Resolver) (controller controllerPath : String) (m : MethodDecl) :
    Resolve (Option Endpoint) :=
  Resolve.inside (.method controller m.name) do
    match ← Resolve.ofExcept (r.verb? m) with
    | some (verb, found) => return some (← r.endpointOf controller controllerPath m verb found)
    | none => return none

/-! ## Controllers -/

/-- Whether a class is a controller: it has a path, even an empty one, and is not hidden. -/
def isController (r : Resolver) (c : ClassDecl) : Bool :=
  r.mapping.has c.decorators .classPath && !r.mapping.has c.decorators .hidden

/-- The methods of a class; of those with one name the first. -/
def distinctMethods (members : List ClassMember) : List MethodDecl :=
  let methods := members.filterMap fun member => match member with
    | .method m => some m
    | _ => none
  methods.foldl (fun kept m => if kept.any (·.name == m.name) then kept else kept ++ [m]) []

def controller (r : Resolver) (c : ClassDecl) (file : String) : Resolve Controller := do
  let path := ((r.roleText? c.decorators .classPath .path).map Route.trim).getD ""
  let endpoints ← (distinctMethods c.members).mapM (r.endpoint? c.name path)
  let responses ← Resolve.inside (.controller c.name) (r.responses c.decorators)
  return {
    name := c.name, location := file, path
    endpoints := endpoints.filterMap id
    consumes := r.roleTexts c.decorators .consumes
    produces := r.roleTexts c.decorators .produces
    tags := r.roleTexts c.decorators .tags
    responses
    security := r.security? c.decorators }

/-- The controllers of the program, in order. -/
def controllers (r : Resolver) : Resolve (List Controller) :=
  (r.index.classes.filter fun (c, _) => r.isController c).mapM fun (c, file) => r.controller c file

end Resolver

namespace Metadata

/-- The metadata of a program, in a session. -/
def build (program : Program) (mapping : Mapping) : Resolve Metadata := do
  let r : Resolver := ⟨Index.ofProgram program, mapping⟩
  let controllers ← r.controllers
  let referenceTypes ← Resolve.ofExcept (← Resolve.context).finish
  return { controllers, referenceTypes }

/-- The metadata of a program or the error that prevents it, with the warnings. -/
def ofProgram (program : Program) (mapping : Mapping) : Except Error Metadata × List Warning :=
  let (result, session) := (build program mapping).run .empty
  (result, session.warnings)

end Metadata

end Endpoints
