import Endpoints.Verb

/-! # Roles of decorators

A role is something that a decorator can express about a class, a method, a parameter or a property.
Which decorators express a role is a matter of the dialect in use.
-/

namespace Endpoints

/-- What a decorator expresses. -/
inductive Role where
  | classPath
  | get | post | put | patch | delete | head | options
  | tags | security | noSecurity | hidden | deprecated | operationId | summary | description
  | produces | consumes
  | response | successResponse | sample
  | context | genericParam | query | formField | body | header | cookie | path
  | uploadedFile | uploadedFiles
  | isInt | isLong | isFloat | isDouble
deriving DecidableEq, Repr

namespace Role

def all : List Role := [
  classPath, get, post, put, patch, delete, head, options, tags, security, noSecurity, hidden,
  deprecated, operationId, summary, description, produces, consumes, response, successResponse,
  .sample, context, genericParam, query, formField, body, header, cookie, path, uploadedFile,
  uploadedFiles, isInt, isLong, isFloat, isDouble]

theorem mem_all (role : Role) : role ∈ all := by
  cases role <;> decide

def name : Role → String
  | classPath => "ClassPath"
  | get => "Get"
  | post => "Post"
  | put => "Put"
  | patch => "Patch"
  | delete => "Delete"
  | head => "Head"
  | options => "Options"
  | tags => "Tags"
  | security => "Security"
  | noSecurity => "NoSecurity"
  | hidden => "Hidden"
  | deprecated => "Deprecated"
  | operationId => "OperationId"
  | summary => "Summary"
  | description => "Description"
  | produces => "Produces"
  | consumes => "Consumes"
  | response => "Response"
  | successResponse => "SuccessResponse"
  | .sample => "Example"
  | context => "Context"
  | genericParam => "GenericParam"
  | query => "Query"
  | formField => "FormField"
  | body => "Body"
  | header => "Header"
  | cookie => "Cookie"
  | path => "Path"
  | uploadedFile => "UploadedFile"
  | uploadedFiles => "UploadedFiles"
  | isInt => "IsInt"
  | isLong => "IsLong"
  | isFloat => "IsFloat"
  | isDouble => "IsDouble"

def ofName? (text : String) : Option Role :=
  all.find? (·.name == text)

/-- The roles that make a method an endpoint, with their verbs. -/
def verbs : List (Role × Verb) := [
  (get, .get), (post, .post), (put, .put), (patch, .patch), (delete, .delete), (head, .head),
  (options, .options)]

def verb? (role : Role) : Option Verb :=
  (verbs.find? (·.1 == role)).map (·.2)

end Role

end Endpoints
