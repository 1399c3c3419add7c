import Endpoints.Text.Trim

/-! # Paths of endpoints

The path of an endpoint is the path of its controller followed by its own. A parameter of a path is
written `{name}` or `:name`.
-/

namespace Endpoints.Route

/-- Removes slashes at both ends. -/
def trim (path : String) : String :=
  let cs := path.toList.dropWhile (· == '/')
  String.ofList (cs.reverse.dropWhile (· == '/')).reverse

/-- Joins the paths of a controller and a method; empty ones leave no trace. -/
def join (controller method : String) : String :=
  "/".intercalate ([trim controller, trim method].filter (!·.isEmpty))

/-- Whether a name goes on with this character. -/
def continuesName (c : Char) : Bool :=
  c.isAlphanum || c == '_' || c == '$'

/-- What follows the occurrences of `part` in a text, first one first. Occurrences do not overlap;
`skip` characters belong to the one before. -/
def afterOccurrences (part : List Char) : (skip : Nat) → List Char → List (List Char)
  | _, [] => []
  | skip + 1, _ :: cs => afterOccurrences part skip cs
  | 0, c :: cs =>
    match Text.dropStart? part (c :: cs) with
    | some rest => rest :: afterOccurrences part (part.length - 1) cs
    | none => afterOccurrences part 0 cs

/-- Whether a path has a parameter of this name. After `:name` the name may not go on. -/
def hasParameter (path name : String) : Bool :=
  Text.occursIn ('{' :: name.toList ++ ['}']) path.toList ||
  (afterOccurrences (':' :: name.toList) 0 path.toList).any fun rest =>
    !(rest.head?.any continuesName)

end Endpoints.Route
