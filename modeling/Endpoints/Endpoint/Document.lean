import Endpoints.Endpoint.Basic
import Endpoints.Schema.Document

/-! # Documents of metadata

Metadata as a JSON document, with the fields of every part in a fixed order.
-/

namespace Endpoints

def textsToJson (texts : List String) : Json :=
  .array (texts.map .string)

def Parameter.toJson (p : Parameter) : Json :=
  .object ([("parameterName", .string p.sourceName), ("name", .string p.name),
    ("in", .string p.location.text),
      ("required", .bool p.required), ("type", p.type.toJson)] ++
    optionalField "description" .string p.description ++ optionalField "default" id p.default ++
    optionalField "collectionFormat" .string p.collectionFormat ++
    optionalField "allowEmptyValue" .bool p.allowEmptyValue ++
    optionalField "minItems" id p.minItems ++ optionalField "maxItems" id p.maxItems)

def Response.toJson (r : Response) : Json :=
  .object ([("status", .string r.status), ("description", .string r.description)] ++
    optionalField "schema" (·.toJson) r.schema ++ optionalField "examples" .array r.samples ++
    optionalField "headers" (·.toJson) r.headers)

def securityField (security : Option (List Security)) : List (String × Json) :=
  optionalField "security" (fun ways => .array (ways.map fun way =>
    .object (way.entries.map fun (scheme, scopes) => (scheme, textsToJson scopes)))) security

def Endpoint.toJson (e : Endpoint) : Json :=
  .object ([("name", .string e.name), ("httpVerb", .string e.verb.text),
      ("path", .string e.path)] ++
    optionalField "description" .string e.description ++
    optionalField "summary" .string e.summary ++
    [("parameters", .array (e.parameters.map (·.toJson))),
     ("responses", .array (e.responses.map (·.toJson))), ("tags", textsToJson e.tags),
     ("consumes", textsToJson e.consumes), ("produces", textsToJson e.produces)] ++
    securityField e.security ++ flagField "deprecated" e.deprecated ++
    [("isHidden", .bool e.hidden)] ++
    optionalField "operationId" .string e.operationId ++ [("type", e.type.toJson)])

def Controller.toJson (c : Controller) : Json :=
  .object ([("name", .string c.name), ("location", .string c.location), ("path", .string c.path),
      ("methods", .array (c.endpoints.map (·.toJson))), ("consumes", textsToJson c.consumes),
      ("produces", textsToJson c.produces), ("tags", textsToJson c.tags),
      ("responses", .array (c.responses.map (·.toJson)))] ++
    securityField c.security)

def referenceTypesToJson (table : Dict ReferenceType) : Json :=
  .object (table.entries.map fun (name, type) => (name, type.toJson))

def Metadata.toJson (m : Metadata) : Json :=
  .object [("controllers", .array (m.controllers.map (·.toJson))),
    ("referenceTypes", referenceTypesToJson m.referenceTypes)]

end Endpoints
