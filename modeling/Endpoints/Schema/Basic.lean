import Endpoints.Doc.Validator

/-! # Schemas

A schema describes the values of a type. Named types are not part of it: they stand in a table of
their own, and a schema holds only their names (`Kind.reference`). Schemas are compared
structurally.
-/

namespace Endpoints

/-- A schema without parts. -/
inductive Scalar where
  | void | string | boolean | integer | long | float | double | date | datetime
  | buffer | byte | binary | any | object | file
deriving DecidableEq, Repr

def Scalar.name : Scalar → String
  | void => "void"
  | string => "string"
  | boolean => "boolean"
  | integer => "integer"
  | long => "long"
  | float => "float"
  | double => "double"
  | date => "date"
  | datetime => "datetime"
  | buffer => "buffer"
  | byte => "byte"
  | binary => "binary"
  | any => "any"
  | object => "object"
  | file => "file"

/-- What sort of named type a reference leads to. -/
inductive Referent where
  | object | enum | typeAlias
deriving DecidableEq, Repr

def Referent.name : Referent → String
  | object => "refObject"
  | enum => "refEnum"
  | typeAlias => "refAlias"

mutual

/-- A schema: what the values are, and whether they may be missing. -/
structure Schema where
  kind : Kind
  /-- Set where the type also allows `null` or `undefined`. -/
  nullable : Bool

/-- What the values of a schema are. -/
inductive Kind where
  | scalar (scalar : Scalar)
  | array (element : Schema)
  | enum (members : List Json)
  | union (types : List Schema)
  | intersection (types : List Schema)
  /-- An object without a name; `additional` describes the values of further properties. -/
  | object (properties : List Property) (additional : Option Schema)
  | reference (referent : Referent) (name : String)

structure Property where
  name : String
  type : Schema
  required : Bool
  description : Option String
  default : Option Json
  format : Option String
  sample : Option Json
  validators : Validators
  deprecated : Bool

end

namespace Schema

/-- A schema that is not nullable. -/
def ofKind (kind : Kind) : Schema := ⟨kind, false⟩

/-- A scalar that is not nullable. -/
def ofScalar (scalar : Scalar) : Schema := ofKind (.scalar scalar)

/-- No value. -/
def void : Schema := ofScalar .void

/-- Any text. -/
def string : Schema := ofScalar .string

/-- Any object. -/
def object : Schema := ofScalar .object

/-- A list of values. -/
def array (element : Schema) : Schema := ofKind (.array element)

/-- One of some values. -/
def enum (members : List Json) : Schema := ofKind (.enum members)

/-- The type of `null` and `undefined`, which makes a union nullable. -/
def null : Schema := enum [.null]

/-- Whether the schema is the one for no value. -/
def isVoid (schema : Schema) : Bool :=
  match schema.kind with
  | .scalar .void => true
  | _ => false

/-- Whether the schema allows `null` only. -/
def isNull (schema : Schema) : Bool :=
  match schema.kind with
  | .enum [.null] => true
  | _ => false

/-- The name of the type that the schema refers to. -/
def reference? (schema : Schema) : Option String :=
  match schema.kind with
  | .reference _ name => some name
  | _ => none

end Schema

def Kind.name : Kind → String
  | scalar s => s.name
  | array _ => "array"
  | enum _ => "enum"
  | union _ => "union"
  | intersection _ => "intersection"
  | object _ _ => "nestedObjectLiteral"
  | reference referent _ => referent.name

mutual

/-- A short wording of a schema. -/
def Schema.display : Schema → String
  | ⟨kind, _⟩ => kind.display

def Kind.display : Kind → String
  | .array element => "array of " ++ element.display
  | .reference referent name => referent.name ++ " '" ++ name ++ "'"
  | kind => kind.name

end

/-- A property of which only name and type are known. -/
def Property.plain (name : String) (type : Schema) (required : Bool) : Property :=
  { name, type, required, description := none, default := none, format := none, sample := none
    validators := .empty, deprecated := false }

/-- Equality of values that may be missing. -/
def sameJson? : Option Json → Option Json → Bool
  | some a, some b => a == b
  | none, none => true
  | _, _ => false

mutual

/-- Equality of schemas. -/
def Schema.same : Schema → Schema → Bool
  | ⟨a, m⟩, ⟨b, n⟩ => Kind.same a b && m == n

def Kind.same : Kind → Kind → Bool
  | .scalar a, .scalar b => a == b
  | .array a, .array b => Schema.same a b
  | .enum a, .enum b => a == b
  | .union a, .union b => sameSchemas a b
  | .intersection a, .intersection b => sameSchemas a b
  | .object p a, .object q b => sameProperties p q && sameSchema? a b
  | .reference r a, .reference s b => r == s && a == b
  | _, _ => false

def sameSchemas : List Schema → List Schema → Bool
  | [], [] => true
  | a :: as, b :: bs => Schema.same a b && sameSchemas as bs
  | _, _ => false

def sameSchema? : Option Schema → Option Schema → Bool
  | some a, some b => Schema.same a b
  | none, none => true
  | _, _ => false

def Property.same : Property → Property → Bool
  | ⟨name, type, required, description, default, format, sample, validators, deprecated⟩, other =>
    name == other.name && Schema.same type other.type && required == other.required &&
    description == other.description && sameJson? default other.default && format == other.format &&
    sameJson? sample other.sample && validators == other.validators &&
    deprecated == other.deprecated

def sameProperties : List Property → List Property → Bool
  | [], [] => true
  | a :: as, b :: bs => Property.same a b && sameProperties as bs
  | _, _ => false

end

instance : BEq Schema := ⟨Schema.same⟩

instance : BEq Property := ⟨Property.same⟩

/-- The list with the item at its end, unless it is there already. -/
def addNew [BEq α] (items : List α) (item : α) : List α :=
  if items.contains item then items else items ++ [item]

end Endpoints
