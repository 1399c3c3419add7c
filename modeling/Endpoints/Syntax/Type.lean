import Endpoints.Doc.Basic

/-! # Type expressions

The type expressions of source files. Shapes that carry no metadata (function types, conditional
types, mapped types and the like) are kept as their source text. `TypeExpr.display` writes a type
expression in its source notation.
-/

namespace Endpoints

/-- A word that names a type by itself. -/
inductive Keyword where
  | string | number | boolean | bigint | void | any | unknown | object | null | undefined | never
  | symbol
deriving DecidableEq, Repr

namespace Keyword

/-- The keywords with their words. -/
def table : List (Keyword × String) := [
  (string, "string"), (number, "number"), (boolean, "boolean"), (bigint, "bigint"),
  (void, "void"), (any, "any"), (unknown, "unknown"), (object, "object"), (null, "null"),
  (undefined, "undefined"), (never, "never"), (symbol, "symbol")]

def text : Keyword → String
  | string => "string"
  | number => "number"
  | boolean => "boolean"
  | bigint => "bigint"
  | void => "void"
  | any => "any"
  | unknown => "unknown"
  | object => "object"
  | null => "null"
  | undefined => "undefined"
  | never => "never"
  | symbol => "symbol"

def ofWord? (word : String) : Option Keyword :=
  (table.find? (·.2 == word)).map (·.1)

end Keyword

/-- A literal used as a type. -/
inductive LiteralType where
  | string (value : String)
  /-- A number by its text, with its sign. -/
  | number (text : String)
  | boolean (value : Bool)
deriving DecidableEq, Repr

mutual

inductive TypeExpr where
  | keyword (word : Keyword)
  | literal (value : LiteralType)
  | reference (name : String) (arguments : List TypeExpr)
  | array (element : TypeExpr)
  | tuple (elements : List TypeExpr)
  | union (members : List TypeExpr)
  | intersection (members : List TypeExpr)
  | object (members : List TypeMember)
  /-- A shape that is only kept as its text. -/
  | unsupported (text : String)

/-- A member of an object type or of the body of an interface. -/
inductive TypeMember where
  | property (name : String) (type : Option TypeExpr) (optional readonly : Bool)
      (doc : Option DocComment)
  | method (name : String)
  | index (keyName : String) (keyType valueType : TypeExpr)

end

/-- An index signature `[keyName: keyType]: valueType`. -/
structure IndexSignature where
  keyName : String
  keyType : TypeExpr
  valueType : TypeExpr

/-- A type parameter of a declaration. -/
structure TypeParameter where
  name : String
  constraint : Option TypeExpr
  default : Option TypeExpr

instance : Inhabited TypeExpr := ⟨.keyword .unknown⟩

namespace LiteralType

/-- The source notation of a literal type; strings stand in single quotes as they are. -/
def display : LiteralType → String
  | string value => "'" ++ value ++ "'"
  | number text => text
  | boolean value => if value then "true" else "false"

end LiteralType

namespace TypeExpr

/-- Whether the elements of an array of this type stand in parentheses. -/
def isCompound : TypeExpr → Bool
  | union _ | intersection _ => true
  | _ => false

mutual

/-- The source notation of a type expression. -/
def display : TypeExpr → String
  | keyword word => word.text
  | literal value => value.display
  | reference name arguments =>
    if arguments.isEmpty then name
    else name ++ "<" ++ ", ".intercalate (displayList arguments) ++ ">"
  | array element =>
    if element.isCompound then "(" ++ display element ++ ")[]" else display element ++ "[]"
  | tuple elements => "[" ++ ", ".intercalate (displayList elements) ++ "]"
  | union members => " | ".intercalate (displayList members)
  | intersection members => " & ".intercalate (displayList members)
  | object members => "\x7b " ++ displayMembers members ++ "\x7d"
  | unsupported text => text

def displayList : List TypeExpr → List String
  | [] => []
  | type :: types => display type :: displayList types

/-- A member, with the semicolon after it. -/
def displayMember : TypeMember → String
  | .property name type optional _ _ =>
    let name := if optional then name ++ "?" else name
    match type with
    | some type => name ++ ": " ++ display type ++ "; "
    | none => name ++ "; "
  | .method name => name ++ "(); "
  | .index keyName keyType valueType =>
    "[" ++ keyName ++ ": " ++ display keyType ++ "]: " ++ display valueType ++ "; "

/-- The members one after the other. -/
def displayMembers : List TypeMember → String
  | [] => ""
  | member :: members => displayMember member ++ displayMembers members

end

/-- A reference without type arguments. -/
def named (name : String) : TypeExpr := reference name []

end TypeExpr

end Endpoints
