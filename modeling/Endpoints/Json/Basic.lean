import Endpoints.Dict
import Endpoints.Double.Shortest
import Endpoints.Word

/-! # JSON values

`Json` is a JSON document. The fields of an object stand in a list, so that a document keeps the
order in which it is to be written; an object that is a plain value lists its fields by name
(`Json.ofFields`). Numbers are integers or finite doubles, and equality of values takes the two
zeros of the doubles for one.
-/

namespace Endpoints

/-- A JSON number. -/
inductive Number where
  | integer (value : Int)
  | double (value : Double)
deriving DecidableEq, Repr

namespace Number

/-- An integer and a double are never the same value. -/
instance : BEq Number where
  beq
    | integer a, integer b => a == b
    | double a, double b => a == b
    | _, _ => false

/-- Positional notation from `0.00001` up to sixteen digits before the point, otherwise an exponent
with its sign. -/
def layout : Double.Layout := ⟨-4, 16, true⟩

def text : Number → String
  | integer value => toString value
  | double value => value.text layout

end Number

inductive Json where
  | null
  | bool (value : Bool)
  | number (value : Number)
  | string (value : String)
  | array (items : List Json)
  | object (fields : List (String × Json))
deriving Inhabited

namespace Json

mutual

/-- Equality of values; objects are compared field by field, in order. -/
def same : Json → Json → Bool
  | null, null => true
  | bool a, bool b => a == b
  | number a, number b => a == b
  | string a, string b => a == b
  | array a, array b => sameList a b
  | object a, object b => sameFields a b
  | _, _ => false

def sameList : List Json → List Json → Bool
  | [], [] => true
  | a :: as, b :: bs => same a b && sameList as bs
  | _, _ => false

def sameFields : List (String × Json) → List (String × Json) → Bool
  | [], [] => true
  | (k, a) :: as, (l, b) :: bs => k == l && same a b && sameFields as bs
  | _, _ => false

end

instance : BEq Json := ⟨same⟩

def int (n : Int) : Json := number (.integer n)

/-- The object value with these fields, ordered by name; of fields with one name the last counts. -/
def ofFields (fields : List (String × Json)) : Json :=
  object (Dict.ofList fields).entries

/-- The text of a string value. -/
def asString? : Json → Option String
  | string value => some value
  | _ => none

/-- The integer of a number that fits 64 bits with a sign. -/
def asInt? : Json → Option Int
  | number (.integer n) => if Word.fitsSigned 64 n then some n else none
  | _ => none

/-- The value of a field of an object. -/
def field? (name : String) : Json → Option Json
  | object fields => lookupEntry name fields
  | _ => none

mutual

/-- Orders the fields of every object by name and keeps the last of those with one name. -/
def normalize : Json → Json
  | array items => array (normalizeList items)
  | object fields => ofFields (normalizeFields fields)
  | other => other

/-- `normalize` on each value. -/
def normalizeList : List Json → List Json
  | [] => []
  | item :: items => normalize item :: normalizeList items

/-- `normalize` on the value of each field. -/
def normalizeFields : List (String × Json) → List (String × Json)
  | [] => []
  | (key, value) :: fields => (key, normalize value) :: normalizeFields fields

end

end Json

end Endpoints
