import Endpoints.File.Path
import Endpoints.Json.Reader
import Endpoints.Settings.Selection
import Endpoints.Yaml.Reader

/-! # Settings

The settings of a run: which source files to look at and which decorators to know. They are read
from a JSON or YAML text by `Settings.parse`.
-/

namespace Endpoints

structure Settings where
  /-- The patterns of the source files. -/
  entries : List String
  ignore : List String
  allow : List String
  /-- What is passed on to those who use the metadata. -/
  swagger : Json
  compilerOptions : Json
  mapping : MappingSettings

/-- The notations of settings. -/
inductive SettingsFormat where
  | json
  | yaml
deriving DecidableEq, Repr

namespace SettingsFormat

/-- The document of a text. -/
def node? : SettingsFormat → String → Option Node
  | json, text => (Json.parseRaw? text).map .ofJson
  | yaml, text => Yaml.parse? text

/-- What is wrong with a text that does not have the right shape. -/
def fault : SettingsFormat → SettingsFault
  | json => .json
  | yaml => .yaml

/-- The notation of a file. -/
def ofPath (p : Path) : SettingsFormat :=
  if p.extension? == some "yaml" || p.extension? == some "yml" then yaml else json

end SettingsFormat

namespace Settings

/-- The section about source files. -/
structure Sources where
  entries : List String
  ignore : List String
  allow : List String

/-- One text, or a list of texts. -/
def oneOrMany? : Node → Option (List String)
  | .list items => items.mapM Node.ownText?
  | .tuple items => items.mapM Node.ownText?
  | node => node.ownText?.map ([·])

def texts? (node : Node) : Option (List String) := do
  (← node.items?).mapM Node.text?

def sources? (node : Node) : Option Sources := do
  let r ← node.record? ["entryFile", "ignore", "allow"]
  let entries ← r.required? "entryFile" oneOrMany?
  let ignore ← r.withDefault? "ignore" [] texts?
  let allow ← r.withDefault? "allow" [] texts?
  return { entries, ignore, allow }

/-- The sections of a configuration, before they are checked. -/
structure Draft where
  sources : Sources
  swagger : Json
  decorators : DecoratorSettings
  compilerOptions : Json

def draft? (node : Node) : Option Draft := do
  let r ← node.record? ["metadata", "swagger", "decorators", "compilerOptions"]
  let sources ← r.required? "metadata" sources?
  let swagger ← r.withDefault? "swagger" .null (·.value?)
  let decorators ← r.withDefault? "decorators" .default DecoratorSettings.ofNode?
  let compilerOptions ← r.withDefault? "compilerOptions" .null (·.value?)
  return { sources, swagger, decorators, compilerOptions }

/-- Whether a text has nothing but white space. -/
def isBlankText (text : String) : Bool :=
  text.toList.all Text.isWhite

/-- Checks settings: there has to be an entry, none may be blank, and all roles and dialects must be
known. -/
def Draft.check (draft : Draft) : Except Fault Settings := do
  let sources := draft.sources
  if sources.entries.isEmpty || sources.entries.any isBlankText then throw (.settings .noEntries)
  let mapping ← draft.decorators.mapping
  return {
    entries := sources.entries
    ignore := sources.ignore
    allow := sources.allow
    swagger := draft.swagger
    compilerOptions := draft.compilerOptions
    mapping }

def parse (format : SettingsFormat) (text : String) : Except Fault Settings :=
  match (format.node? text).bind draft? with
  | some draft => draft.check
  | none => .error (.settings format.fault)

/-- The directory of the source files as the compiler is told it. -/
def rootDir? (settings : Settings) : Option String :=
  match settings.compilerOptions with
  | .object fields =>
    match lookupEntry "rootDir" fields with
    | some (.string root) => some root
    | _ => none
  | _ => none

/-- The directory that the entry patterns start from, for settings in a given directory. -/
def sourceRoot (settings : Settings) (base : Path) : Path :=
  match settings.rootDir? with
  | some root => base.join root
  | none => base

end Settings

end Endpoints
