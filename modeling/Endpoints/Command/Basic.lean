import Endpoints.Command.Arguments
import Endpoints.Project.Basic

/-! # The command

`Arguments.run` does what the command line asks for: it reads a project, generates its metadata, and
writes it to a file if one is named.
-/

namespace Endpoints

/-- Why the command fails. -/
inductive CommandFault where
  | noConfig (path : Path)
  | load (path : Path) (error : Error)
  | generate (error : Error)
  | makeDirectory (path : Path) (fault : FileFault)
  | write (path : Path) (fault : FileFault)
deriving DecidableEq, Repr

/-- The wording of a fault with its causes. -/
def CommandFault.message : CommandFault → String
  | noConfig path => "Configuration file does not exist: " ++ path.text
  | load path error => ": ".intercalate (("Failed to load " ++ path.text) :: error.causes)
  | generate error => ": ".intercalate error.causes
  | makeDirectory path fault => "Failed to create directory: " ++ path.text ++ ": " ++ fault.message
  | write path fault => "Failed to write to file: " ++ path.text ++ ": " ++ fault.message

namespace Arguments

variable {m : Type → Type} [Monad m]

/-- Checks that the configuration is there. -/
def check (files : Files m) (args : Arguments) : m (Except CommandFault Unit) := do
  return if ← files.isFile args.config then .ok () else .error (.noConfig args.config)

/-- Writes a file. The directories around it are made. -/
def save (files : Files m) (p : Path) (text : String) : m (Except CommandFault Unit) := do
  let parent := p.parent?.getD ⟨""⟩
  match ← files.makeDirectories (parent.text.length + 1) parent with
  | .error fault => return .error (.makeDirectory parent fault)
  | .ok () =>
    match ← files.write p text with
    | .error fault => return .error (.write p fault)
    | .ok () => return .ok ()

/-- The warning of metadata that is empty. -/
def emptyWarning (metadata : Metadata) : List Warning :=
  if metadata.controllers.isEmpty then [.noControllers] else []

/-- Runs the command: the text of the metadata, with the warnings. -/
def run (files : Files m) (args : Arguments) : m (Except CommandFault String × List Warning) := do
  match ← Project.load files args.config with
  | .error e => return (.error (.load args.config e), [])
  | .ok project =>
    let (result, warnings) ← (project.metadata files).outcome
    match result with
    | .error e => return (.error (.generate e), warnings)
    | .ok metadata =>
      let text := metadata.text args.format
      let saved ← match args.output with
        | some p => save files p text
        | none => pure (.ok ())
      return (saved.map fun _ => text, warnings ++ emptyWarning metadata)

end Arguments

end Endpoints
