import Endpoints.Error
import Endpoints.File.Path

/-! # Access to files

`Files m` is what a run needs to know of a file system, in whatever monad it is reached.
-/

namespace Endpoints

/-- What a path leads to. -/
inductive FileKind where
  | file
  | directory
deriving DecidableEq, Repr

/-- Access to files. -/
structure Files (m : Type → Type) where
  /-- What a path leads to, if anything. -/
  kind? : Path → m (Option FileKind)
  /-- The names in a directory, in order. -/
  names : Path → m (List String)
  read : Path → m (Except FileFault String)
  /-- Makes a directory inside one that is there. -/
  makeDirectory : Path → m (Except FileFault Unit)
  write : Path → String → m (Except FileFault Unit)

namespace Files

variable {m : Type → Type} [Monad m]

def isFile (files : Files m) (p : Path) : m Bool := do
  return (← files.kind? p) == some .file

def isDirectory (files : Files m) (p : Path) : m Bool := do
  return (← files.kind? p) == some .directory

/-- Whether making a directory failed for another reason than that it is there. -/
def orDirectory (files : Files m) (p : Path) : Except FileFault Unit → m (Except FileFault Unit)
  | .ok () => return .ok ()
  | .error fault => do return if ← files.isDirectory p then .ok () else .error fault

/-- Makes a directory and those around it that are missing. Every step goes to a directory around,
so that the length of the path is enough fuel. -/
def makeDirectories (files : Files m) : (fuel : Nat) → Path → m (Except FileFault Unit)
  | 0, _ => return .error .missing
  | fuel + 1, p => do
    if p.text.isEmpty then return .ok ()
    match ← files.makeDirectory p, p.parent? with
    | .error .missing, some parent =>
      match ← files.makeDirectories fuel parent with
      | .ok () => files.orDirectory p (← files.makeDirectory p)
      | .error fault => return .error fault
    | result, _ => files.orDirectory p result

end Files

end Endpoints
