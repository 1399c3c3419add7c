import Endpoints.Error
import Endpoints.Schema.Reference

/-! # Resolution contexts

The state of one run: the table of finished reference types, the declaration that each name comes
from, the names under construction, and the names that were referred to before they were finished.
-/

namespace Endpoints

/-- What is known of reference types during a run. -/
structure Context where
  table : Dict ReferenceType
  /-- The location of the declaration that each name comes from. -/
  origins : Dict String
  /-- The names under construction, without repeats. -/
  inProgress : List String
  /-- The names that were referred to while under construction, in order. -/
  deferred : List String

namespace Context

/-- The context at the start of a run. -/
def empty : Context := ⟨.empty, .empty, [], []⟩

/-- Notes where a name comes from. It may not come from two declarations. -/
def claim (c : Context) (name origin : String) : Except Fault Context :=
  match c.origins.get? name with
  | some first =>
    if first = origin then .ok c else .error (.duplicateReferenceName name first origin)
  | none => .ok { c with origins := c.origins.insert name origin }

/-- A finished reference type. -/
def reference? (c : Context) (name : String) : Option ReferenceType :=
  c.table.get? name

def isInProgress (c : Context) (name : String) : Bool :=
  c.inProgress.contains name

/-- The number of names under construction. -/
def depth (c : Context) : Nat :=
  c.inProgress.length

/-- Starts the construction of a name. -/
def start (c : Context) (name : String) : Context :=
  if c.isInProgress name then c else { c with inProgress := name :: c.inProgress }

/-- Gives up the construction of a name. -/
def abandon (c : Context) (name : String) : Context :=
  { c with inProgress := c.inProgress.filter (· != name) }

/-- Stores a finished reference type. -/
def complete (c : Context) (type : ReferenceType) : Context :=
  { c.abandon type.name with table := c.table.insert type.name type }

/-- Notes that a name was referred to before it was finished. -/
def defer (c : Context) (name : String) : Context :=
  { c with deferred := c.deferred ++ [name] }

/-- The table at the end of a run. All names that were referred to early must be in it. -/
def finish (c : Context) : Except Fault (Dict ReferenceType) :=
  match c.deferred.find? (!c.table.contains ·) with
  | some name => .error (.unfinishedReference name)
  | none => .ok c.table

end Context

end Endpoints
