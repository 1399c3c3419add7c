import Endpoints.Endpoint.Controller
import Endpoints.Program.Dialects
import Endpoints.Project.Discovery
import Endpoints.Settings.Basic

/-! # Projects

A project is the settings in a file together with the directory of that file. `Project.load` reads
it and `Project.metadata` gives the metadata of its source files.
-/

namespace Endpoints

/-- Settings with the directory that they stand in. -/
structure Project where
  settings : Settings
  base : Path

namespace Project

variable {m : Type → Type} [Monad m]

/-- Reads the settings of a project. -/
def load (files : Files m) (p : Path) : m (Except Error Project) := do
  match ← files.read p with
  | .error fault => return .error (Error.ofFault (.file fault))
  | .ok text =>
    match Settings.parse (.ofPath p) text with
    | .error fault => return .error (Error.ofFault fault)
    | .ok settings => return .ok { settings, base := p.parent?.getD ⟨""⟩ }

/-- The entries of a project. -/
def entries (project : Project) : Entries where
  root := project.settings.sourceRoot project.base
  entries := project.settings.entries
  ignore := project.settings.ignore
  allow := project.settings.allow

def readSource (files : Files m) (p : Path) : m (Except Error ProgramFile) := do
  match ← files.read p with
  | .error fault => return .error (Error.ofFault (.file fault))
  | .ok source => return ProgramFile.parse p.text source

/-- The warnings of source files that can not be read. -/
def sourceWarnings (results : List (Path × Except Error ProgramFile)) : List Warning :=
  results.filterMap fun (p, result) =>
    match result with
    | .ok _ => none
    | .error e => some (.unparsedFile p.text e)

/-- Reads the source files of a project. All that can not be read are reported, and the first of
them is the error. -/
def program (files : Files m) (paths : List Path) : Run m Program := do
  let results ← Run.lift (paths.mapM fun p => do return (p, ← readSource files p))
  Run.warn (sourceWarnings results)
  Run.ofExcept (results.mapM (·.2))

/-- The metadata of a project. Entries without source files are reported when they are found and
when the search is over. -/
def metadata (files : Files m) (project : Project) : Run m Metadata := do
  let (found, warnings) ← Run.lift (project.entries.discover files).outcome
  Run.warn warnings
  let paths ← Run.ofExcept found
  Run.warn warnings
  let program ← program files paths
  Run.warn (program.dialectWarnings project.settings.mapping.dialects)
  let (result, warnings) := Metadata.ofProgram program (Mapping.ofSettings project.settings.mapping)
  Run.warn warnings
  Run.ofExcept result

end Project

end Endpoints
