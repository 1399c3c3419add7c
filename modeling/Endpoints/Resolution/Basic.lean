import Endpoints.Resolution.Shape
import Endpoints.Warning

/-! # Computations on a context

Types are resolved in a session, which holds the context of the run and the warnings so far. An
error ends a computation and keeps the session as it is at that point.

Resolution is written for every monad that has the operations of a session (`MonadSession`) and can
fail. `Resolve` is the one in which programs are run.
-/

namespace Endpoints

/-- The state of a run. -/
structure Session where
  context : Context
  warnings : List Warning

/-- The session at the start of a run. -/
def Session.empty : Session := ⟨.empty, []⟩

/-- The operations of a session. -/
class MonadSession (m : Type → Type) where
  context : m Context
  modifyContext : (Context → Context) → m Unit
  warn : Warning → m Unit
  shapeOf : Schema → m ObjectShape

/-- A computation in a session that may fail. -/
abbrev Resolve := ExceptT Error (StateM Session)

namespace Resolve

/-! ## Errors -/

section Errors

variable {m : Type → Type} [Monad m] [MonadExceptOf Error m] {α : Type}

def fail (fault : Fault) : m α :=
  throw (Error.ofFault fault)

/-- A value or its fault. -/
def ofExcept : Except Fault α → m α
  | .ok value => return value
  | .error fault => fail fault

/-- A computation whose errors lie in a place. -/
def inside (place : Place) (action : m α) : m α :=
  tryCatch action fun e => throw (e.inside place)

end Errors

/-! ## The session -/

export MonadSession (context modifyContext warn shapeOf)

instance : MonadSession Resolve where
  context := return (← get).context
  modifyContext f := modify fun session => { session with context := f session.context }
  warn warning := modify fun session => { session with warnings := session.warnings ++ [warning] }
  shapeOf schema := do ofExcept ((← get).context.shapeOf schema)

/-! ## Names -/

section Names

variable {m : Type → Type} [Monad m] [MonadExceptOf Error m] [MonadSession m] {α : Type}

/-- Notes where a name comes from. -/
def claim (name origin : String) : m Unit := do
  let c ← ofExcept ((← context).claim name origin)
  modifyContext fun _ => c

/-- Runs a computation while a name is under construction. If it fails, the construction is given
up; if not, the computation has finished it. -/
def constructing (name : String) (action : m α) : m α := do
  if (← context).depth ≥ maxDepth then
    fail (.unsupportedType (.tooDeep name))
  modifyContext (·.start name)
  tryCatch action fun e => do
    modifyContext (·.abandon name)
    throw e

end Names

end Resolve

end Endpoints
