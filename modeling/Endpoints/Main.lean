import Endpoints.Command.Basic

/-! # The command line

Extracts endpoint metadata from decorated TypeScript controllers and writes it to a file or to
standard output.
-/

namespace Endpoints

def FileFault.ofError : IO.Error → FileFault
  | .noFileOrDirectory .. => .missing
  | .alreadyExists .. => .alreadyThere
  | .inappropriateType _ code _ =>
    if code == 20 then .notDirectory
    else if code == 21 then .isDirectory
    else .other s!"os error {code}"
  | e => .other (toString e)

/-- The result of an action that the operating system may refuse. -/
def attempt (action : IO α) : IO (Except FileFault α) := do
  try
    return .ok (← action)
  catch e =>
    return .error (.ofError e)

/-- A path for the operating system. -/
def Path.place (p : Path) : IO.FS.DirEntry := ⟨p.text, ""⟩

/-- Access to the files of this computer. -/
def localFiles : Files IO where
  kind? p := do
    match ← attempt p.place.root.metadata with
    | .ok data => return some (if data.type == .dir then .directory else .file)
    | .error _ => return none
  names p := do
    match ← attempt p.place.root.readDir with
    | .ok entries => return (entries.map (·.fileName)).toList.mergeSort (fun a b => a < b || a == b)
    | .error _ => return []
  read p := do
    if ← p.place.root.isDir then return .error .isDirectory
    match ← attempt (IO.FS.readBinFile p.text) with
    | .error fault => return .error fault
    | .ok bytes =>
      match String.fromUTF8? bytes with
      | some text => return .ok text
      | none => return .error .notText
  makeDirectory p := attempt (IO.FS.createDir p.text)
  write p text := attempt (IO.FS.writeFile p.text text)

def usage : String :=
  "Extract endpoint metadata from decorated TypeScript controllers\n\n" ++
  "Usage: endpoints [OPTIONS] <CONFIG>\n\n" ++
  "Arguments:\n" ++
  "  <CONFIG>  Path to the configuration file (.json, .yaml or .yml)\n\n" ++
  "Options:\n" ++
  "  -f, --format <FORMAT>  Output format (yaml or json) [default: yaml]\n" ++
  "  -o, --output <FILE>    Output file path (if not specified, outputs to stdout)\n" ++
  "  -v, --verbose          Enable verbose output\n" ++
  "  -h, --help             Print help\n" ++
  "  -V, --version          Print version"

def UsageFault.message : UsageFault → String
  | missingConfig => "the configuration is missing"
  | invalidValue => "a value is invalid, empty or missing"
  | unknownArgument => "unexpected argument"
  | givenTwice => "an option is given twice"
  | unexpectedValue => "a flag has no value"
  | help => usage
  | version => "endpoints 0.1.0"

/-- Prints help or what is wrong with a command line. -/
def showUsage (fault : UsageFault) : IO UInt32 := do
  if fault == .help || fault == .version then
    IO.println fault.message
    return 0
  else
    IO.eprintln ("error: " ++ fault.message)
    return 2

/-- Runs the command and prints warnings and the outcome. -/
def runCommand (args : Arguments) : IO (Except CommandFault Unit) := do
  match ← args.check localFiles with
  | .error fault => return .error fault
  | .ok () =>
    let (result, warnings) ← args.run localFiles
    for warning in warnings do
      IO.eprintln ("warning: " ++ warning.message)
    match result with
    | .error fault => return .error fault
    | .ok text =>
      if args.output.isNone then IO.println text
      return .ok ()

end Endpoints

open Endpoints in
def main (arguments : List String) : IO UInt32 := do
  match Arguments.parse arguments with
  | .error fault => showUsage fault
  | .ok args =>
    match ← runCommand args with
    | .ok () => return 0
    | .error fault =>
      IO.eprintln ("Error: " ++ fault.message)
      return 1
