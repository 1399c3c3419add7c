import Endpoints.Resolution.Context

/-! # Unions

A union of types has no schema of its own. `null` and `undefined` make it nullable; branches that
are all enums become one enum; a type together with the array of it becomes the array. Any other
union is an object.
-/

namespace Endpoints

/-- The values of a schema that is an enum. -/
def Context.enumMembers? (c : Context) (schema : Schema) : Option (List Json) :=
  match schema.kind with
  | .enum members => some members
  | .reference .enum name =>
    match c.reference? name with
    | some { shape := .enum members _, .. } => some members
    | _ => none
  | _ => none

/-- The values of schemas that are all enums, each once. -/
def Context.unionMembers? (c : Context) (branches : List Schema) : Option (List Json) :=
  (branches.mapM c.enumMembers?).map fun values => values.flatten.foldl addNew []

/-- Whether `array` is the array of `element`. -/
def Schema.isArrayOf (array element : Schema) : Bool :=
  match array.kind with
  | .array item => item == element
  | _ => false

/-- The array type, if there are two branches and one is the array of the other. -/
def singleOrArray? : List Schema → Option Schema
  | [first, second] =>
    if first.isArrayOf second then some first
    else if second.isArrayOf first then some second
    else none
  | _ => none

/-- What a union has gathered of its members: the branches that are not null, each once and not
nullable, and whether null was among them. -/
structure UnionParts where
  branches : List Schema
  nullable : Bool

namespace UnionParts

def add (parts : UnionParts) (schema : Schema) : UnionParts :=
  if schema.isNull then
    { parts with nullable := true }
  else
    { branches := addNew parts.branches { schema with nullable := false }
      nullable := parts.nullable || schema.nullable }

def toSchema (c : Context) (parts : UnionParts) : Schema :=
  match parts.branches with
  | [] => .null
  | [branch] => { branch with nullable := branch.nullable || parts.nullable }
  | branches =>
    let schema : Schema := match c.unionMembers? branches with
      | some members => .enum members
      | none => (singleOrArray? branches).getD .object
    { schema with nullable := schema.nullable || parts.nullable }

end UnionParts

end Endpoints
