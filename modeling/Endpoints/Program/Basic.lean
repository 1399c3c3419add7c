import Endpoints.Error
import Endpoints.Syntax.SourceFile

/-! # Programs

A program is a list of source files with their paths.
-/

namespace Endpoints

/-- A source file of a program. -/
structure ProgramFile where
  path : String
  content : SourceFile

/-- Source files, in order. -/
abbrev Program := List ProgramFile

def ProgramFile.parse (path source : String) : Except Error ProgramFile :=
  match SourceFile.parse source with
  | .ok content => .ok { path, content }
  | .error e => .error (Fault.parse path e)

end Endpoints
