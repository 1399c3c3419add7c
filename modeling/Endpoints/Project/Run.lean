import Endpoints.Warning

/-! # Runs

A `Run` is a computation that an error ends and that reports warnings, also those before the error.
-/

namespace Endpoints

/-- A computation with errors and warnings. -/
abbrev Run (m : Type → Type) := ExceptT Error (StateT (List Warning) m)

namespace Run

variable {m : Type → Type} [Monad m]

/-- A step without errors and warnings. -/
def lift (step : m α) : Run m α :=
  ExceptT.lift (StateT.lift step)

/-- A result that may be an error. -/
def ofExcept : Except Error α → Run m α
  | .ok value => pure value
  | .error e => throw e

def warn (warnings : List Warning) : Run m Unit :=
  modify (· ++ warnings)

/-- The outcome of a run, with its warnings. -/
def outcome (run : Run m α) : m (Except Error α × List Warning) :=
  StateT.run (ExceptT.run run) []

end Run

end Endpoints
