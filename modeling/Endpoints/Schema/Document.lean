import Endpoints.Schema.Reference

/-! # Documents of schemas

Schemas and reference types as JSON documents. Fields stand in a fixed order. What is absent, false
or empty where it may be is left out.
-/

namespace Endpoints

/-- A field with a value that may be missing. -/
def optionalField (name : String) (write : α → Json) : Option α → List (String × Json)
  | some value => [(name, write value)]
  | none => []

/-- A field that is only there if set. -/
def flagField (name : String) (flag : Bool) : List (String × Json) :=
  if flag then [(name, .bool true)] else []

def Validator.toJson (validator : Validator) : Json :=
  .object (("value", validator.value) :: optionalField "errorMsg" .string validator.message)

/-- The field of validators, if there are any. -/
def validatorsField (validators : Validators) : List (String × Json) :=
  if validators.isEmpty then []
  else
    let fields := validators.entries.map fun (name, validator) => (name, validator.toJson)
    [("validators", .object fields)]

mutual

def Schema.toJson : Schema → Json
  | ⟨kind, nullable⟩ => .object (kind.fields ++ flagField "nullable" nullable)

/-- The fields of a kind. -/
def Kind.fields : Kind → List (String × Json)
  | .scalar s => [("typeName", .string s.name)]
  | .array element => [("typeName", .string "array"), ("elementType", element.toJson)]
  | .enum members => [("typeName", .string "enum"), ("members", .array members)]
  | .union types => [("typeName", .string "union"), ("types", .array (schemasToJson types))]
  | .intersection types =>
    [("typeName", .string "intersection"), ("types", .array (schemasToJson types))]
  | .object properties additional =>
    ("typeName", .string "nestedObjectLiteral") ::
      ("properties", .array (propertiesToJson properties)) ::
      additionalField additional
  | .reference referent name => [("typeName", .string referent.name), ("refName", .string name)]

def schemasToJson : List Schema → List Json
  | [] => []
  | schema :: schemas => schema.toJson :: schemasToJson schemas

/-- The field of the schema for further properties. -/
def additionalField : Option Schema → List (String × Json)
  | some schema => [("additionalProperties", schema.toJson)]
  | none => []

def Property.toJson : Property → Json
  | ⟨name, type, required, description, default, format, sample, validators, deprecated⟩ =>
    .object ([("name", .string name), ("type", type.toJson), ("required", .bool required)] ++
      optionalField "description" .string description ++ optionalField "default" id default ++
      optionalField "format" .string format ++ optionalField "example" id sample ++
      validatorsField validators ++ flagField "deprecated" deprecated)

def propertiesToJson : List Property → List Json
  | [] => []
  | property :: properties => property.toJson :: propertiesToJson properties

end

/-- The fields of a shape. -/
def ReferenceShape.fields : ReferenceShape → List (String × Json)
  | .object properties additional =>
    ("typeName", .string "refObject") :: ("properties", .array (propertiesToJson properties)) ::
      additionalField additional
  | .enum members memberNames =>
    [("typeName", .string "refEnum"), ("members", .array members)] ++
      optionalField "memberNames" (fun names => .array (names.map .string)) memberNames
  | .typeAlias target format validators default =>
    [("typeName", .string "refAlias"), ("aliasedType", target.toJson)] ++
      optionalField "format" .string format ++ validatorsField validators ++
      optionalField "default" id default

def ReferenceType.toJson (type : ReferenceType) : Json :=
  .object (("refName", .string type.name) :: optionalField "description" .string type.description ++
    flagField "deprecated" type.deprecated ++ optionalField "example" id type.sample ++
    type.shape.fields)

end Endpoints
