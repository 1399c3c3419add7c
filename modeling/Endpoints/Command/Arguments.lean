import Endpoints.Endpoint.Output
import Endpoints.File.Path

/-! # Arguments of the command line

The command takes the path of a configuration, the options `-f`/`--format` and `-o`/`--output` with
a value each, and the flags `-v`/`--verbose`, `-h`/`--help` and `-V`/`--version`. `Arguments.parse`
reads them.
-/

namespace Endpoints

/-- The arguments of a run. -/
structure Arguments where
  config : Path
  format : OutputFormat
  output : Option Path
  verbose : Bool
deriving DecidableEq, Repr

/-- Why there are no arguments to run with. -/
inductive UsageFault where
  | missingConfig
  /-- A value is wrong, empty or missing. -/
  | invalidValue
  | unknownArgument
  | givenTwice
  | unexpectedValue
  | help
  | version
deriving DecidableEq, Repr

namespace Arguments

/-- An argument with a value. -/
inductive Slot where
  | config
  | format
  | output
deriving DecidableEq, Repr

/-- An argument that is just there. -/
inductive Flag where
  | verbose
  | help
  | version
deriving DecidableEq, Repr

/-- What the name of an option stands for. -/
inductive Switch where
  | slot (slot : Slot)
  | flag (flag : Flag)
deriving DecidableEq, Repr

def Switch.ofName? : String → Option Switch
  | "format" => some (.slot .format)
  | "output" => some (.slot .output)
  | "verbose" => some (.flag .verbose)
  | "help" => some (.flag .help)
  | "version" => some (.flag .version)
  | _ => none

def Switch.ofLetter? : Char → Option Switch
  | 'f' => some (.slot .format)
  | 'o' => some (.slot .output)
  | 'v' => some (.flag .verbose)
  | 'h' => some (.flag .help)
  | 'V' => some (.flag .version)
  | _ => none

/-- What was read of the arguments. -/
structure Reading where
  config : Option String
  format : Option OutputFormat
  output : Option String
  verbose : Bool
  /-- The last argument with a value, which is checked only when the next one comes, and its value,
  if it is there already. -/
  pending : Option (Slot × Option String)
  hasConfig : Bool
  optionsOver : Bool

namespace Reading

def empty : Reading := ⟨none, none, none, false, none, false, false⟩

/-- Takes the value of an argument, which may be given once and must not be empty. -/
def store (r : Reading) (slot : Slot) (value : String) : Except UsageFault Reading :=
  match slot with
  | .config =>
    if value.isEmpty then .error .invalidValue else .ok { r with config := some value }
  | .format =>
    if r.format.isSome then .error .givenTwice
    else
      match OutputFormat.ofName? value with
      | some format => .ok { r with format := some format }
      | none => .error .invalidValue
  | .output =>
    if r.output.isSome then .error .givenTwice
    else if value.isEmpty then .error .invalidValue
    else .ok { r with output := some value }

/-- Takes the pending argument. Its value must be there. -/
def settle (r : Reading) : Except UsageFault Reading :=
  match r.pending with
  | none => .ok r
  | some (_, none) => .error .invalidValue
  | some (slot, some value) => { r with pending := none }.store slot value

/-- Takes a flag. -/
def raise (r : Reading) (flag : Flag) : Except UsageFault Reading := do
  let r ← r.settle
  match flag with
  | .verbose => if r.verbose then throw .givenTwice else return { r with verbose := true }
  | .help => throw .help
  | .version => throw .version

/-- Takes an argument with the value that stands at its name, or waits for the next argument. -/
def offer (r : Reading) (slot : Slot) (value : Option String) : Except UsageFault Reading := do
  let r ← r.settle
  match value with
  | some value => r.store slot value
  | none => return { r with pending := some (slot, none) }

/-- Takes a long option, after its dashes. -/
def long (r : Reading) (text : List Char) : Except UsageFault Reading :=
  let (name, value) := match Text.cutAt? (· == '=') text with
    | some (name, value) => (name, some (String.ofList value))
    | none => (text, none)
  match Switch.ofName? (String.ofList name), value with
  | some (.slot slot), value => r.offer slot value
  | some (.flag flag), none => r.raise flag
  | some (.flag _), some _ => .error .unexpectedValue
  | none, _ => .error .unknownArgument

/-- Takes letters after a dash. The rest after an option is its value. -/
def letters (r : Reading) : List Char → Except UsageFault Reading
  | [] => .ok r
  | c :: cs =>
    match Switch.ofLetter? c with
    | some (.flag flag) => do letters (← r.raise flag) cs
    | some (.slot slot) =>
      match cs with
      | [] => r.offer slot none
      | '=' :: value => r.offer slot (some (String.ofList value))
      | value => r.offer slot (some (String.ofList value))
    | none => .error .unknownArgument

/-- Takes an argument that is no option: there is one, the configuration. -/
def positional (r : Reading) (text : String) : Except UsageFault Reading :=
  if r.hasConfig then .error .unknownArgument
  else do
    let r ← r.settle
    return { r with pending := some (.config, some text), hasConfig := true }

/-- Takes an argument that has no dash in front: a value that is waited for, or the
configuration. -/
def plain (r : Reading) (text : String) : Except UsageFault Reading :=
  match r.pending with
  | some (slot, none) => .ok { r with pending := some (slot, some text) }
  | _ => r.positional text

def argument (r : Reading) (text : String) : Except UsageFault Reading :=
  if r.optionsOver then r.positional text
  else
    match text.toList with
    | ['-', '-'] => .ok { r with optionsOver := true }
    | '-' :: '-' :: name => r.long name
    | '-' :: c :: cs => r.letters (c :: cs)
    | _ => r.plain text

/-- The arguments that were read. Without a format, the output is YAML. -/
def finish (r : Reading) : Except UsageFault Arguments := do
  let r ← r.settle
  match r.config with
  | none => throw .missingConfig
  | some config =>
    return {
      config := ⟨config⟩
      format := r.format.getD .yaml
      output := r.output.map Path.mk
      verbose := r.verbose }

end Reading

def parse (arguments : List String) : Except UsageFault Arguments := do
  (← arguments.foldlM Reading.argument .empty).finish

end Arguments

end Endpoints
