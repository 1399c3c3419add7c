import Endpoints.Decorator.Rule

/-! # Dialects

The decorators that express each role: a built-in table and a table for every framework whose
decorators are understood.
-/

namespace Endpoints

/-- The representations of roles, in the order in which they are looked for. Roles without any are
left out. -/
abbrev RoleTable := List (Role × List Representation)

namespace RoleTable

def lookup (table : RoleTable) (role : Role) : List Representation :=
  ((table.find? (·.1 == role)).map (·.2)).getD []

/-- Decorators without details. -/
def plain (role : Role) (names : List String) : Role × List Representation :=
  (role, names.map fun name => ⟨name, []⟩)

/-- Decorators with one detail. -/
def withOne (role : Role) (names : List String) (detail : Detail) (rule : Rule) :
    Role × List Representation :=
  (role, names.map fun name => ⟨name, [(detail, rule)]⟩)

/-- A decorator with several details. -/
def withAll (role : Role) (name : String) (rules : List (Detail × Rule)) :
    Role × List Representation :=
  (role, [.ofRules name rules])

/-- Decorators of parameters that carry the parameter's name. -/
def parameter (role : Role) (name : String) : Role × List Representation :=
  withOne role [name] .name (.value 0)

/-- Decorators of verbs, which carry the path. -/
def verbs (roles : List Role) : RoleTable :=
  roles.map fun role => withOne role [role.name] .path (.value 0)

def builtin : RoleTable :=
  [withOne .classPath ["Route"] .path (.value 0)] ++
  verbs [.get, .post, .put, .patch, .delete, .head, .options] ++
  [withOne .tags ["Tags"] .values .allValues,
   withAll .security "Security" [(.name, .value 0), (.scopes, .value 1)],
   plain .noSecurity ["NoSecurity"],
   plain .hidden ["Hidden"],
   plain .deprecated ["Deprecated"],
   withOne .operationId ["OperationId"] .operationId (.value 0),
   withOne .produces ["Produces"] .values .allValues,
   withOne .consumes ["Consumes"] .values .allValues,
   withAll .response "Response" [(.status, .value 0), (.description, .value 1), (.sample, .value 2),
     (.type, .typeArgument 0), (.headers, .typeArgument 1)],
   withAll .successResponse "SuccessResponse" [(.status, .value 0), (.description, .value 1)],
   withAll .sample "Example" [(.sample, .value 0), (.type, .typeArgument 0)],
   plain .context ["Request", "Inject"],
   withAll .query "Query" [(.name, .value 0), (.options, .value 1)],
   parameter .formField "FormField",
   plain .body ["Body"],
   parameter .header "Header",
   parameter .cookie "Cookie",
   parameter .path "Path",
   parameter .uploadedFile "UploadedFile",
   parameter .uploadedFiles "UploadedFiles",
   plain .isInt ["IsInt"],
   plain .isLong ["IsLong"],
   plain .isFloat ["IsFloat"],
   plain .isDouble ["IsDouble"]]

def nest : RoleTable :=
  [withOne .classPath ["Controller"] .path (.inField "path")] ++
  verbs [.get, .post, .put, .patch, .delete, .head, .options] ++
  [withOne .tags ["ApiTags"] .values .allValues,
   withAll .security "ApiSecurity" [(.name, .value 0), (.scopes, .value 1)],
   plain .hidden ["ApiExcludeController", "ApiExcludeEndpoint"],
   withOne .operationId ["ApiOperation"] .operationId (.inField "operationId"),
   withOne .summary ["ApiOperation"] .summary (.inField "summary"),
   withOne .description ["ApiOperation"] .description (.inField "description"),
   withOne .produces ["ApiProduces"] .values .allValues,
   withOne .consumes ["ApiConsumes"] .values .allValues,
   withAll .response "ApiResponse" [(.status, .inField "status"),
     (.description, .inField "description"), (.sample, .inField "example"),
     (.type, .inField "type")],
   withOne .successResponse ["HttpCode"] .status (.value 0),
   plain .context ["Req", "Request", "Res", "Response", "Next", "Session", "Ip"],
   parameter .query "Query",
   plain .body ["Body"],
   parameter .header "Headers",
   parameter .path "Param",
   parameter .uploadedFile "UploadedFile",
   parameter .uploadedFiles "UploadedFiles"]

def routingControllers : RoleTable :=
  [withOne .classPath ["JsonController", "Controller"] .path (.value 0)] ++
  verbs [.get, .post, .put, .patch, .delete, .head] ++
  [withOne .successResponse ["HttpCode"] .status (.value 0),
   plain .context ["Req", "Res", "Ctx", "Session", "State"],
   plain .genericParam ["Params"],
   (.query, [.ofRules "QueryParam" [(.name, .value 0), (.options, .value 1)], ⟨"QueryParams", []⟩]),
   plain .body ["Body"],
   parameter .header "HeaderParam",
   parameter .cookie "CookieParam",
   parameter .path "Param",
   parameter .uploadedFile "UploadedFile",
   parameter .uploadedFiles "UploadedFiles"]

end RoleTable

/-- A framework with decorators of its own. -/
inductive Dialect where
  | nest | routingControllers
deriving DecidableEq, Repr

namespace Dialect

def all : List Dialect := [nest, routingControllers]

def name : Dialect → String
  | nest => "nestjs"
  | routingControllers => "routing-controllers"

def ofName? (text : String) : Option Dialect :=
  all.find? (·.name == text)

/-- The modules from which a program that uses the dialect imports its decorators. -/
def modules : Dialect → List String
  | nest => ["@nestjs/common", "@nestjs/swagger"]
  | routingControllers => ["routing-controllers"]

def table : Dialect → RoleTable
  | nest => .nest
  | routingControllers => .routingControllers

end Dialect

end Endpoints
