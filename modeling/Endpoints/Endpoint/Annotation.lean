import Endpoints.Endpoint.Basic
import Endpoints.Resolution.Resolver

/-! # What controllers and endpoints have in common

Lists of texts, security requirements and responses are declared by decorators in the same way on
classes and on methods.
-/

namespace Endpoints.Resolver

/-- The texts that a role lists, each once. -/
def roleTexts (r : Resolver) (decorators : List Decorator) (role : Role) : List String :=
  match r.mapping.find? decorators role with
  | some found => (found.allTexts .values).foldl addNew []
  | none => []

/-- A text that a role carries. -/
def roleText? (r : Resolver) (decorators : List Decorator) (role : Role) (detail : Detail) :
    Option String :=
  (r.mapping.find? decorators role).bind (·.text? detail)

/-- The scopes of a scheme in an object literal. -/
def scopes : Expr → List String
  | .array items => items.filterMap (·.asString?)
  | _ => []

/-- The requirement that one decorator declares: an object literal with the scopes of schemes, or
the name of a scheme followed by its scopes. -/
def requirement? (found : RoleMatch) (d : Decorator) : Option Security :=
  match found.value? d .name with
  | some (.expr (.object entries)) =>
    some (.ofList (entries.map fun (scheme, value) => (scheme, scopes value)))
  | _ =>
    (found.textOf? d .name).map fun scheme => Dict.empty.insert scheme (found.textsOf d .scopes)

/-- The security requirements. Where it is said that there are none, the list is empty. -/
def security? (r : Resolver) (decorators : List Decorator) : Option (List Security) :=
  if r.mapping.has decorators .noSecurity then
    some []
  else
    (r.mapping.find? decorators .security).map fun found =>
      found.instances.filterMap (requirement? found)

/-- The schema of a type that may be missing. -/
def resolve? (r : Resolver) : Option TypeExpr → Resolve (Option Schema)
  | some type => return some (← r.resolve type .none)
  | none => return none

/-- The response that one decorator declares. -/
def response (r : Resolver) (found : RoleMatch) (d : Decorator) : Resolve Response := do
  let schema ← r.resolve? (found.typeOf? d .type)
  let headers ← r.resolve? (found.typeOf? d .headers)
  return {
    status := (found.textOf? d .status).getD "default"
    description := (found.textOf? d .description).getD ""
    schema
    samples := (found.jsonOf? d .sample).map ([·])
    headers }

def responses (r : Resolver) (decorators : List Decorator) : Resolve (List Response) :=
  match r.mapping.find? decorators .response with
  | some found => found.instances.mapM (r.response found)
  | none => return []

end Endpoints.Resolver
