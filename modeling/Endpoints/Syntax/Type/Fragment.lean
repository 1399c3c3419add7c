import Endpoints.Syntax.Type
import Endpoints.Text.Letter
import Endpoints.Text.Upper

/-! # Names of instantiated types

A generic type that is used with type arguments gets a name made of its own name and a fragment for
every argument: `Box<string>` is `BoxString`.
-/

namespace Endpoints

/-- The letters, digits and underscores of a text. -/
def nameText (text : String) : String :=
  String.ofList (text.toList.filter fun c => Text.isLetterOrNumber c || c == '_')

/-- A number text with words for its minus signs. -/
def spellMinus (text : String) : String :=
  String.ofList (text.toList.flatMap fun c => if c == '-' then "Minus".toList else [c])

namespace TypeExpr

mutual

/-- What a type argument contributes to a name. -/
def fragment : TypeExpr → String
  | keyword word => Text.capitalize word.text
  | literal (.string text) => Text.capitalize (nameText text)
  | literal (.number text) => nameText (spellMinus text)
  | literal (.boolean value) => if value then "True" else "False"
  | reference name arguments => nameText name ++ String.join (fragments arguments)
  | array element => fragment element ++ "Array"
  | tuple elements => String.join (fragments elements) ++ "Tuple"
  | union members => "Or".intercalate (fragments members)
  | intersection members => "And".intercalate (fragments members)
  | object _ => "Object"
  | unsupported text => Text.capitalize (nameText text)

def fragments : List TypeExpr → List String
  | [] => []
  | type :: types => fragment type :: fragments types

end

end TypeExpr

end Endpoints
