import Endpoints.Schema.Basic

/-! # Reference types

A named type, described once and referred to by its name.
-/

namespace Endpoints

/-- What a reference type describes. -/
inductive ReferenceShape where
  | object (properties : List Property) (additional : Option Schema)
  /-- The values of an enum; their names if no two of the values are the same. -/
  | enum (members : List Json) (memberNames : Option (List String))
  | typeAlias (target : Schema) (format : Option String) (validators : Validators)
      (default : Option Json)

/-- A named type. -/
structure ReferenceType where
  name : String
  description : Option String
  deprecated : Bool
  sample : Option Json
  shape : ReferenceShape

namespace ReferenceShape

def referent : ReferenceShape → Referent
  | object .. => .object
  | enum .. => .enum
  | typeAlias .. => .typeAlias

end ReferenceShape

namespace ReferenceType

/-- A schema that refers to this type. -/
def handle (type : ReferenceType) : Schema :=
  .ofKind (.reference type.shape.referent type.name)

/-- The properties of an object; none for other types. -/
def properties (type : ReferenceType) : List Property :=
  match type.shape with
  | .object properties _ => properties
  | _ => []

end ReferenceType

end Endpoints
