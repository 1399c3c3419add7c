import Endpoints.Resolution.Context

/-! # Object shapes

The properties of an object-like schema. Shapes are merged where a type inherits from others: a
property replaces an earlier one of the same name and keeps its place.
-/

namespace Endpoints

/-- Properties, and the schema of further ones. -/
structure ObjectShape where
  properties : List Property
  additional : Option Schema

namespace ObjectShape

def empty : ObjectShape := ⟨[], none⟩

/-- Puts a property in the place of the first one with its name, or at the end. -/
def replace (properties : List Property) (property : Property) : List Property :=
  match properties with
  | [] => [property]
  | first :: rest =>
    if first.name = property.name then property :: rest else first :: replace rest property

/-- Adds an own property to inherited ones. It keeps the inherited description if it has none. -/
def addOwn (properties : List Property) (own : Property) : List Property :=
  match properties.find? (·.name = own.name) with
  | some inherited =>
    replace properties { own with description := own.description.or inherited.description }
  | none => properties ++ [own]

/-- Adds the properties of another shape, which replace those of the same name. -/
def inherit (shape other : ObjectShape) : ObjectShape where
  properties := other.properties.foldl replace shape.properties
  additional := other.additional.or shape.additional

/-- All properties with the same requirement. -/
def require (shape : ObjectShape) (required : Bool) : ObjectShape :=
  { shape with properties := shape.properties.map fun property => { property with required } }

/-- The shape as a schema of its own. -/
def toSchema (shape : ObjectShape) : Schema :=
  .ofKind (.object shape.properties shape.additional)

end ObjectShape

mutual

/-- The shape of a schema. `follow` gives the shapes of names. -/
def Schema.shape (follow : String → Except Fault ObjectShape) : Schema → Except Fault ObjectShape
  | ⟨kind, _⟩ => kind.shape follow

def Kind.shape (follow : String → Except Fault ObjectShape) : Kind → Except Fault ObjectShape
  | .object properties additional => .ok ⟨properties, additional⟩
  | .reference .object name => follow name
  | .reference .typeAlias name => follow name
  | .intersection types => mergeShapes follow .empty types
  | kind => .error (.unsupportedType (.noProperties kind.display))

/-- The shapes of several schemas merged into one. -/
def mergeShapes (follow : String → Except Fault ObjectShape) (merged : ObjectShape) :
    List Schema → Except Fault ObjectShape
  | [] => .ok merged
  | schema :: schemas => do
    let shape ← schema.shape follow
    mergeShapes follow (merged.inherit shape) schemas

end

namespace Context

/-- The shape of a name. Aliases are followed at most `hops` times; more are only needed where an
alias stands for itself. -/
def shapeOfName (c : Context) : (hops : Nat) → String → Except Fault ObjectShape
  | 0, name => .error (.unsupportedType (.circularAlias name))
  | hops + 1, name =>
    match c.reference? name with
    | none => .error (.unsupportedType (.incomplete name))
    | some type =>
      match type.shape with
      | .object properties additional => .ok ⟨properties, additional⟩
      | .typeAlias target _ _ _ => target.shape (c.shapeOfName hops)
      | .enum _ _ => .error (.unsupportedType (.enumProperties name))

def shapeOf (c : Context) (schema : Schema) : Except Fault ObjectShape :=
  schema.shape (c.shapeOfName (c.table.entries.length + 1))

end Context

end Endpoints
