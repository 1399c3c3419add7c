import Endpoints.Json.Numeral
import Endpoints.Syntax.Type

/-! # Expressions

Literal expressions as they stand in decorator arguments, initializers and enum members. Any other
expression is kept as its source text.
-/

namespace Endpoints

inductive Expr where
  | string (value : String)
  /-- A number by its text, with its sign. -/
  | number (text : String)
  | bool (value : Bool)
  | null
  | undefined
  | array (items : List Expr)
  | object (entries : List (String × Expr))
  /-- An identifier or a path of identifiers (`HttpStatus.OK`). -/
  | path (text : String)
  /-- An expression that is only kept as its text. -/
  | raw (text : String)
deriving Inhabited

namespace Expr

/-- The value of an object literal under a key; the first one, if there are several. -/
def field? (key : String) : Expr → Option Expr
  | object entries => lookupEntry key entries
  | _ => none

def asString? : Expr → Option String
  | string value => some value
  | _ => none

mutual

/-- The JSON value of an expression. Paths and other expressions become their text. -/
def toJson : Expr → Json
  | string value => .string value
  | number text => Numeral.toJson text
  | bool value => .bool value
  | null | undefined => .null
  | array items => .array (toJsonList items)
  | object entries => .ofFields (toJsonEntries entries)
  | path text | raw text => .string text

def toJsonList : List Expr → List Json
  | [] => []
  | item :: items => toJson item :: toJsonList items

def toJsonEntries : List (String × Expr) → List (String × Json)
  | [] => []
  | (key, value) :: entries => (key, toJson value) :: toJsonEntries entries

end

/-- Reads an identifier that stands for a type: a constructor of a primitive, a class, or a list of
one of these. -/
def asType? : Expr → Option TypeExpr
  | path "String" => some (.keyword .string)
  | path "Number" => some (.keyword .number)
  | path "Boolean" => some (.keyword .boolean)
  | path name => some (.named name)
  | array [item] => (asType? item).map .array
  | _ => none

end Expr

end Endpoints
