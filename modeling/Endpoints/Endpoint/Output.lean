import Endpoints.Endpoint.Document
import Endpoints.Json.Writer
import Endpoints.Yaml.Writer

/-! # Output formats

Metadata is written as a JSON or YAML text.
-/

namespace Endpoints

/-- The notations of metadata. -/
inductive OutputFormat where
  | yaml
  | json
deriving DecidableEq, Repr

def OutputFormat.ofName? : String → Option OutputFormat
  | "yaml" => some yaml
  | "json" => some json
  | _ => none

def Metadata.text (m : Metadata) : OutputFormat → String
  | .yaml => Yaml.write m.toJson
  | .json => m.toJson.pretty

end Endpoints
