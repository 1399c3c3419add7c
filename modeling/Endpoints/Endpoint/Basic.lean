import Endpoints.Schema.Reference
import Endpoints.Verb

/-! # Metadata of endpoints

What a run gives: controllers with their endpoints, parameters and responses, and a table of the
named types that their schemas refer to.
-/

namespace Endpoints

/-- Where a parameter stands in a request. -/
inductive Location where
  | query | path | header | cookie | body | formData
  /-- A value that the framework gives. -/
  | context
  /-- All parameters of the path as one object. -/
  | param
deriving DecidableEq, Repr

def Location.text : Location → String
  | query => "query"
  | path => "path"
  | header => "header"
  | cookie => "cookie"
  | body => "body"
  | formData => "formData"
  | context => "context"
  | param => "param"

structure Parameter where
  sourceName : String
  name : String
  location : Location
  required : Bool
  type : Schema
  description : Option String
  default : Option Json
  collectionFormat : Option String
  allowEmptyValue : Option Bool
  minItems : Option Json
  maxItems : Option Json

structure Response where
  status : String
  description : String
  schema : Option Schema
  samples : Option (List Json)
  headers : Option Schema

/-- A way to be allowed: the scopes that are needed of each scheme. -/
abbrev Security := Dict (List String)

/-- An endpoint: a method of a controller that answers requests. -/
structure Endpoint where
  name : String
  verb : Verb
  path : String
  description : Option String
  summary : Option String
  parameters : List Parameter
  responses : List Response
  tags : List String
  consumes : List String
  produces : List String
  security : Option (List Security)
  deprecated : Bool
  hidden : Bool
  operationId : Option String
  /-- What the body of a successful response holds. -/
  type : Schema

/-- A class whose methods are endpoints. -/
structure Controller where
  name : String
  /-- The file that declares the controller. -/
  location : String
  path : String
  endpoints : List Endpoint
  consumes : List String
  produces : List String
  tags : List String
  responses : List Response
  security : Option (List Security)

/-- The result of a run. -/
structure Metadata where
  controllers : List Controller
  referenceTypes : Dict ReferenceType

end Endpoints
