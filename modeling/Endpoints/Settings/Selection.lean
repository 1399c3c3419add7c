import Endpoints.Decorator.Mapping
import Endpoints.Error
import Endpoints.Settings.Node

/-! # Selections of decorators

Configurations select decorators in several ways: by a flag, by a name, by a list of names, or by a
map from names to further selections. `Selection.inclusion` and `Selection.dialects` give their
meaning.
-/

namespace Endpoints

/-- A choice of roles or dialects. -/
inductive Selection where
  | flag (value : Bool)
  | one (name : String)
  | many (names : List String)
  | perName (choices : List (String × Selection))
deriving Inhabited

namespace Selection

mutual

/-- Reads a selection. Of entries with one name the last counts. -/
def ofNode? : Node → Option Selection
  | .map entries => (ofEntries? entries).map fun choices => perName (Dict.ofList choices).entries
  | .list items => (items.mapM Node.ownText?).map many
  | .tuple items => (items.mapM Node.ownText?).map many
  | .bool value => some (flag value)
  | .string name => some (one name)
  | .plain text =>
    match Yaml.plainValue? text with
    | some (.bool value) => some (flag value)
    | some (.string name) => some (one name)
    | _ => none
  | _ => none

/-- Reads the entries of a map of selections. -/
def ofEntries? : List (Node × Node) → Option (List (String × Selection))
  | [] => some []
  | (key, value) :: entries => do
    let name ← key.ownText?
    let choice ← ofNode? value
    let choices ← ofEntries? entries
    return (name, choice) :: choices

end

/-- The role of a name in a configuration. -/
def role (name : String) : Except Fault Role :=
  match Role.ofName? name with
  | some role => .ok role
  | none => .error (.settings (.unknownRole name))

/-- The dialect of a name in a configuration. -/
def dialect (name : String) : Except Fault Dialect :=
  match Dialect.ofName? name with
  | some dialect => .ok dialect
  | none => .error (.unknownDialect name)

/-- The role that a flag switches on, if any. The name is checked in any case. -/
def flaggedRole : String × Selection → Except Fault (Option Role)
  | (name, flag value) => do
    let role ← role name
    return if value then some role else none
  | (name, _) => .error (.settings (.roleFlag name))

/-- The roles that a selection includes. -/
def inclusion : Selection → Except Fault Inclusion
  | flag true => .ok .all
  | flag false => .ok .none
  | one name => return .ofRoles [← role name]
  | many names => return .ofRoles (← names.mapM role)
  | perName choices => return .ofRoles ((← choices.mapM flaggedRole).filterMap id)

/-- A dialect with the roles that it contributes. -/
def dialectEntry : String × Selection → Except Fault (Dialect × Inclusion)
  | (name, choice) => do
    let dialect ← dialect name
    return (dialect, ← choice.inclusion)

/-- The dialects that a selection makes active. -/
def dialects : Selection → Except Fault DialectChoice
  | flag true => .ok .all
  | flag false => .ok .none
  | one name => return .one (← dialect name)
  | many [] => .ok .none
  | many names => return .subset (← names.mapM dialect)
  | perName choices => do
    let chosen := (← choices.mapM dialectEntry).filter fun (_, inclusion) => inclusion != .none
    return .perRole (Dialect.all.filterMap fun dialect => chosen.find? (·.1 == dialect))

end Selection

/-- The section of a configuration about decorators. -/
structure DecoratorSettings where
  builtin : Option Selection
  dialects : Option Selection
  overrides : RoleTable

namespace DecoratorSettings

/-- What holds without such a section. -/
def default : DecoratorSettings := ⟨none, none, []⟩

/-- A slot by its name. In JSON a name may also be the only key of an object with the value null. -/
def slot? (node : Node) : Option Slot :=
  let name := match node with
    | .map [(.string name, .null)] => some name
    | node => node.text?
  match name with
  | some "value" => some .value
  | some "type" => some .type
  | _ => none

def rule? (node : Node) : Option Rule := do
  let r ← node.record? ["slot", "position", "all", "field"]
  let slot ← r.withDefault? "slot" .value slot?
  let position ← r.withDefault? "position" 0 (·.natural?)
  let all ← r.withDefault? "all" false (·.bool?)
  let field ← r.optional? "field" (·.text?)
  return ⟨slot, if all then .all else .one position, field⟩

/-- A rule with its detail. -/
def ruleOf? : Node × Node → Option (Detail × Rule)
  | (key, value) => do
    let detail ← Detail.ofKey? (← key.text?)
    return (detail, ← rule? value)

def representation? (node : Node) : Option Representation := do
  let r ← node.record? ["name", "properties"]
  let name ← r.required? "name" (·.text?)
  let rules ← r.withDefault? "properties" [] fun node => do (← node.entries?).mapM ruleOf?
  return .ofRules name rules

/-- A role with the representations that override it. -/
def overrideOf? : Node × Node → Option (Role × List Representation)
  | (key, value) => do
    let role ← Role.ofName? (← key.text?)
    return (role, ← (← value.items?).mapM representation?)

/-- The representations that override others, in the order of the roles; of entries for one role the
last counts. -/
def overrides? (node : Node) : Option RoleTable := do
  let entries ← (← node.entries?).mapM overrideOf?
  return Role.all.filterMap fun role => entries.reverse.find? (·.1 == role)

def ofNode? (node : Node) : Option DecoratorSettings := do
  let r ← node.record? ["builtin", "dialects", "override"]
  let builtin ← r.optional? "builtin" Selection.ofNode?
  let dialects ← r.optional? "dialects" Selection.ofNode?
  let overrides ← r.withDefault? "override" [] overrides?
  return { builtin, dialects, overrides }

/-- What a mapping is made from. -/
def mapping (settings : DecoratorSettings) : Except Fault MappingSettings := do
  let builtin ← match settings.builtin with
    | some selection => selection.inclusion
    | none => .ok .all
  let dialects ← match settings.dialects with
    | some selection => selection.dialects
    | none => .ok .none
  return { builtin, dialects, overrides := settings.overrides }

end DecoratorSettings

end Endpoints
