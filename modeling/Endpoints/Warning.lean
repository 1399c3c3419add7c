import Endpoints.Decorator.Dialect
import Endpoints.Error

/-! # Warnings

What a run reports without failing.
-/

namespace Endpoints

/-- Something to report that is no error. -/
inductive Warning where
  | untypedProperty (name : String)
  | untypedParameter (name method : String)
  | untypedMethod (controller name : String)
  | inactiveDialect (dialect : Dialect)
  | unparsedFile (path : String) (error : Error)
  | unmatchedEntry (pattern : String)
  | inaccessible (message : String)
  | noControllers
deriving DecidableEq, Repr

def Warning.message : Warning → String
  | untypedProperty name => "Property '" ++ name ++ "' has no type annotation, using object"
  | untypedParameter name method =>
    "Parameter '" ++ name ++ "' of " ++ method ++ " has no type annotation, using object"
  | untypedMethod controller name =>
    controller ++ "." ++ name ++ " has no return type annotation, using object"
  | inactiveDialect dialect =>
    "Sources import " ++ dialect.name ++ " decorators but the '" ++ dialect.name ++
      "' dialect is not enabled; its decorators are ignored"
  | unparsedFile path error => "Failed to parse " ++ path ++ ": " ++ error.message
  | unmatchedEntry pattern => "Entry pattern '" ++ pattern ++ "' matched no source files"
  | inaccessible message => "Failed to access path: " ++ message
  | noControllers => "No controllers found"

end Endpoints
