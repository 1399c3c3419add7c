import Endpoints.Pattern.Basic
import Endpoints.Syntax.Cursor

/-! # Errors

All reasons for which a run gives no metadata, each with its wording. An `Error` is a fault with the
places that lead to it.
-/

namespace Endpoints

/-- Why a file can not be read or written. -/
inductive FileFault where
  | missing
  | alreadyThere
  | notDirectory
  | isDirectory
  | notText
  | other (text : String)
deriving DecidableEq, Repr

/-- The wording of the operating system. -/
def FileFault.message : FileFault → String
  | missing => "No such file or directory (os error 2)"
  | alreadyThere => "File exists (os error 17)"
  | notDirectory => "Not a directory (os error 20)"
  | isDirectory => "Is a directory (os error 21)"
  | notText => "stream did not contain valid UTF-8"
  | other text => text

/-- What is wrong with a configuration. -/
inductive SettingsFault where
  | json
  | yaml
  | noEntries
  | unknownRole (name : String)
  | roleFlag (name : String)
deriving DecidableEq, Repr

def SettingsFault.message : SettingsFault → String
  | json => "JSON error"
  | yaml => "YAML error"
  | noEntries => "metadata.entryFile must name at least one glob pattern"
  | unknownRole name => "unknown decorator role '" ++ name ++ "'"
  | roleFlag name => "role flag '" ++ name ++ "' must be true or false"

/-- The greatest number of reference types that may be under construction at once. A generic type
that refers to itself with growing arguments has a new name at every level and would not end
otherwise. -/
def maxDepth : Nat := 32

/-- A type that has no schema. -/
inductive Unsupported where
  /-- A type expression, by its text. -/
  | type (text : String)
  /-- A schema without properties, by its wording. -/
  | noProperties (schema : String)
  | enumProperties (name : String)
  /-- A reference type whose properties are asked for before it is complete. -/
  | incomplete (name : String)
  | circularInheritance (chain : List String)
  | tooDeep (name : String)
  | circularAlias (name : String)
  /-- A type was followed further than its bound. -/
  | unbounded
deriving DecidableEq, Repr

def Unsupported.message : Unsupported → String
  | type text => text
  | noProperties schema => schema ++ " has no properties"
  | enumProperties name => "enum '" ++ name ++ "' has no properties"
  | incomplete name => "'" ++ name ++ "' is used before its declaration is complete"
  | circularInheritance chain => "circular inheritance " ++ " -> ".intercalate chain
  | tooDeep name =>
    name ++ " nests reference types more than " ++ toString maxDepth ++ " levels deep"
  | circularAlias name => "'" ++ name ++ "' stands for itself"
  | unbounded => "type is nested without bound"

/-- Why a run gives no metadata. -/
inductive Fault where
  | file (fault : FileFault)
  | parse (path : String) (error : SyntaxError)
  | pattern (text : String) (error : PatternError)
  | settings (fault : SettingsFault)
  | unknownDialect (name : String)
  | ambiguousDeclaration (name : String) (locations : List String)
  | duplicateReferenceName (name first second : String)
  | ambiguousVerb (method : String) (verbs : List String)
  | unsupportedType (type : Unsupported)
  | unsupportedIndexSignature (text : String)
  | unresolvableType (name : String)
  | multipleBodyParameters
  | bodyAndFormParameters
  | unsupportedVerb (parameter kind verb : String)
  | pathParameterMismatch (parameter path : String)
  | invalidSimpleType (parameter kind found : String)
  | invalidQueryType (parameter found : String)
  | unfinishedReference (name : String)
deriving DecidableEq, Repr

def Fault.message : Fault → String
  | file fault => "IO error: " ++ fault.message
  | parse path error =>
    "parse error in " ++ path ++ ":" ++ toString error.line ++ ": " ++ error.fault.message
  | pattern text error => "invalid glob pattern '" ++ text ++ "': " ++ error.message
  | settings fault => "configuration error: " ++ fault.message
  | unknownDialect name => "unknown decorator dialect '" ++ name ++ "'"
  | ambiguousDeclaration name locations =>
    "multiple declarations found for '" ++ name ++ "': " ++ ", ".intercalate locations
  | duplicateReferenceName name first second =>
    "reference type name '" ++ name ++ "' is produced by both " ++ first ++ " and " ++ second
  | ambiguousVerb method verbs =>
    "only one HTTP verb decorator is allowed on '" ++ method ++ "', found: " ++
      ", ".intercalate verbs
  | unsupportedType type => "unsupported type shape: " ++ type.message
  | unsupportedIndexSignature text =>
    "only string-keyed index signatures are supported, found '[" ++ text ++ "]'"
  | unresolvableType name =>
    "unable to resolve type '" ++ name ++ "': no matching declaration found"
  | multipleBodyParameters => "only one body parameter is allowed per method"
  | bodyAndFormParameters => "body and form parameters can not be combined in one method"
  | unsupportedVerb parameter kind verb =>
    "parameter '" ++ parameter ++ "' of kind " ++ kind ++ " can't support '" ++ verb ++ "' method"
  | pathParameterMismatch parameter path =>
    "can't match path parameter '" ++ parameter ++ "' in path '" ++ path ++ "'"
  | invalidSimpleType parameter kind found =>
    "parameter '" ++ parameter ++ "' is a " ++ kind ++ " and must have a simple type, found " ++
      found
  | invalidQueryType parameter found =>
    "query parameter '" ++ parameter ++ "' can not be of type " ++ found
  | unfinishedReference name => "circular reference to '" ++ name ++ "' was never completed"

/-- A part of the program that an error lies in. -/
inductive Place where
  | controller (name : String)
  | method (owner name : String)
  | parameter (name : String)
  | property (name : String)
deriving DecidableEq, Repr

def Place.text : Place → String
  | controller name => name
  | method owner name => owner ++ "." ++ name
  | parameter name => "parameter '" ++ name ++ "'"
  | property name => "property '" ++ name ++ "'"

/-- A fault with the places around it, outermost first. -/
structure Error where
  places : List Place
  fault : Fault
deriving DecidableEq, Repr

namespace Error

/-- A fault that lies in no particular place. -/
def ofFault (fault : Fault) : Error := ⟨[], fault⟩

/-- The error, seen from a place around it. -/
def inside (place : Place) (e : Error) : Error := { e with places := place :: e.places }

def message (e : Error) : String :=
  e.places.foldr (fun place text => place.text ++ ": " ++ text) e.fault.message

/-- The wordings of an error and of what caused it: without the first place, without the second, and
so on. -/
def causes (e : Error) : List String :=
  let inner := match e.fault with
    | .file fault => [e.fault.message, fault.message]
    | fault => [fault.message]
  e.places.foldr (fun place texts => (place.text ++ ": " ++ texts.headD "") :: texts) inner

end Error

instance : Coe Fault Error := ⟨Error.ofFault⟩

end Endpoints
