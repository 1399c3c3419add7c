import Endpoints.Decorator.Role

/-! # Reading values out of decorators

A `Representation` is a decorator that expresses some role, with rules that say where among its
arguments the details of that role stand.
-/

namespace Endpoints

/-- A value that a decorator can carry. -/
inductive Detail where
  | path | name | status | description | sample | values | type | scopes | options | summary
  | operationId | headers
deriving DecidableEq, Repr

namespace Detail

def all : List Detail :=
  [path, name, status, description, .sample, values, type, scopes, options, summary, operationId,
   headers]

def key : Detail → String
  | path => "path"
  | name => "name"
  | status => "status"
  | description => "description"
  | .sample => "example"
  | values => "values"
  | type => "type"
  | scopes => "scopes"
  | options => "options"
  | summary => "summary"
  | operationId => "operationId"
  | headers => "headers"

def ofKey? (text : String) : Option Detail :=
  all.find? (·.key == text)

end Detail

/-- The list of arguments that a rule reads. -/
inductive Slot where
  | value
  | type
deriving DecidableEq, Repr

/-- Which arguments a rule takes. -/
inductive Pick where
  | one (position : Nat)
  | all
deriving DecidableEq, Repr

/-- How a detail is read out of the arguments of a decorator. Where the argument is an object
literal and the rule has a field, the value of that field is read. -/
structure Rule where
  slot : Slot
  pick : Pick
  field : Option String
deriving DecidableEq, Repr

namespace Rule

/-- The argument at a position. -/
def value (position : Nat) : Rule := ⟨.value, .one position, none⟩

def allValues : Rule := ⟨.value, .all, none⟩

/-- The type argument at a position. -/
def typeArgument (position : Nat) : Rule := ⟨.type, .one position, none⟩

/-- A field of the first argument. -/
def inField (name : String) : Rule := ⟨.value, .one 0, some name⟩

end Rule

/-- A decorator that expresses a role. -/
structure Representation where
  /-- The decorator's name, which is compared with the whole name and with its last part. -/
  name : String
  /-- The rules of details, in the order of the details. -/
  rules : List (Detail × Rule)
deriving DecidableEq, Repr

namespace Representation

/-- Puts rules into the order of the details; of rules for one detail the last counts. -/
def ofRules (name : String) (rules : List (Detail × Rule)) : Representation where
  name
  rules := Detail.all.filterMap fun detail =>
    (rules.reverse.find? (·.1 == detail)).map fun (_, rule) => (detail, rule)

/-- The rule of a detail; without one the first argument is read. -/
def rule (r : Representation) (detail : Detail) : Rule :=
  ((r.rules.find? (·.1 == detail)).map (·.2)).getD (.value 0)

end Representation

end Endpoints
