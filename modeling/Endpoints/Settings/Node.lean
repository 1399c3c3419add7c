import Endpoints.Yaml.Scalar

/-! # Nodes of a configuration

A configuration is written in JSON or in YAML. A `Node` is what both have in common; the readers of
settings ask it for a text, a truth value, a list and so on. In YAML a plain scalar is read as what
is asked for, and an empty one may stand for an empty list or map. In JSON a list may stand for a
record, with its fields in order.
-/

namespace Endpoints

/-- A part of a configuration. -/
inductive Node where
  | null
  | bool (value : Bool)
  | number (value : Number)
  | string (value : String)
  | plain (text : String)
  | list (items : List Node)
  /-- A list that may stand for a record. -/
  | tuple (items : List Node)
  | map (entries : List (Node × Node))
deriving Inhabited

namespace Node

mutual

/-- A JSON document as a node. -/
def ofJson : Json → Node
  | .null => null
  | .bool value => bool value
  | .number value => number value
  | .string value => string value
  | .array items => tuple (ofItems items)
  | .object fields => map (ofFields fields)

def ofItems : List Json → List Node
  | [] => []
  | item :: items => ofJson item :: ofItems items

def ofFields : List (String × Json) → List (Node × Node)
  | [] => []
  | (key, value) :: fields => (string key, ofJson value) :: ofFields fields

end

/-- The text where a text is asked for. -/
def text? : Node → Option String
  | string value => some value
  | plain text => some text
  | _ => none

/-- The text of a node that is a text by itself. -/
def ownText? : Node → Option String
  | string value => some value
  | plain text =>
    match Yaml.plainValue? text with
    | some (.string value) => some value
    | _ => none
  | _ => none

def bool? : Node → Option Bool
  | bool value => some value
  | plain text => Yaml.bool? text
  | _ => none

/-- The natural number of 64 bits. -/
def natural? (node : Node) : Option Nat :=
  let n := match node with
    | number (.integer n) => some n
    | plain text => Yaml.integer? text
    | _ => none
  n.bind fun n => if Word.fitsUnsigned 64 n then some n.toNat else none

/-- Whether nothing is given. -/
def isAbsent : Node → Bool
  | null => true
  | plain text => Yaml.isNull text
  | _ => false

def items? : Node → Option (List Node)
  | list items | tuple items => some items
  | plain "" => some []
  | _ => none

def entries? : Node → Option (List (Node × Node))
  | map entries => some entries
  | plain "" => some []
  | _ => none

mutual

/-- The JSON value of a node. -/
def value? : Node → Option Json
  | null => some .null
  | bool value => some (.bool value)
  | number value => some (.number value)
  | string value => some (.string value)
  | plain text => Yaml.plainValue? text
  | list items => (values? items).map .array
  | tuple items => (values? items).map .array
  | map entries => (fields? entries).map .ofFields

def values? : List Node → Option (List Json)
  | [] => some []
  | item :: items => do
    let value ← value? item
    let values ← values? items
    return value :: values

/-- The fields of a map with the values of its entries. -/
def fields? : List (Node × Node) → Option (List (String × Json))
  | [] => some []
  | (key, value) :: entries => do
    let key ← text? key
    let value ← value? value
    let fields ← fields? entries
    return (key, value) :: fields

end

/-! ## Records -/

/-- The fields of a record that are given. -/
structure Record where
  fields : List (String × Node)
  /-- Whether the fields are given by their order. -/
  positional : Bool

/-- The fields that are given more than once, or are no texts, make a map no record. -/
def record? (names : List String) : Node → Option Record
  | tuple items => if items.length ≤ names.length then some ⟨names.zip items, true⟩ else none
  | node => do
    let entries ← entries? node
    let fields ← entries.mapM fun (key, value) => (key.text?).map (·, value)
    let once := names.all fun name => (fields.filter (·.1 == name)).length ≤ 1
    if once then some ⟨fields, false⟩ else none

namespace Record

/-- A field that has to be given. -/
def required? (r : Record) (name : String) (read : Node → Option α) : Option α :=
  (lookupEntry name r.fields).bind read

/-- A field with a default. -/
def withDefault? (r : Record) (name : String) (default : α) (read : Node → Option α) : Option α :=
  match lookupEntry name r.fields with
  | some node => read node
  | none => some default

/-- A field that may be absent. Among fields given by their order it has to be there. -/
def optional? (r : Record) (name : String) (read : Node → Option α) : Option (Option α) :=
  match lookupEntry name r.fields with
  | some node => if node.isAbsent then some none else (read node).map some
  | none => if r.positional then none else some none

end Record

end Node

end Endpoints
